import PipeShell.Proofs.System.Streams

/-!
What becomes of the files when a process opens them. A file that is opened to be replaced is there
afterwards and has nothing in it; all other calls of a stage that gets ready leave the files alone.
-/

set_option autoImplicit false
set_option relaxedAutoImplicit false

namespace PipeShell

variable {α : Type}

namespace FileTree

variable {t t' : FileTree} {actor : Actor} {path : Bytes} {mode : Nat} {id : NodeId}

theorem node_addNode (t : FileTree) (place : Place) {node : Node} {data : Bytes}
    (h : node.content = .file data) :
    (t.addNode place node).1.node (t.addNode place node).2 = node := by
  have hnew : ({ t with nodes := t.nodes.set t.nodes.next node } : FileTree).node t.nodes.next =
      node := by
    simp [FileTree.node]
  unfold addNode attach
  dsimp only
  split
  · rename_i parent names hdirectory
    have hne : t.nodes.next ≠ place.directory := by
      intro heq
      rw [← heq, hnew, h] at hdirectory
      cases hdirectory
    have hkept := Table.get?_modify_of_ne (t.nodes.set t.nodes.next node) (fun n : Node =>
      { n with content := .directory parent (names ++ [(place.name, t.nodes.next)]) }) hne
    unfold FileTree.node at hnew ⊢
    rw [← hkept] at hnew
    exact hnew
  · exact hnew

theorem node_emptied (t : FileTree) (user : Nat) (id : NodeId) :
    ((t.setData user id []).node id).content = .file [] := by
  unfold FileTree.node
  rw [Machine.get?_setData, if_pos rfl]
  cases t.nodes.get? id <;> rfl

theorem openForWriting_replaces (h : t.openForWriting actor path mode true = .ok (t', id)) :
    (t'.node id).content = .file [] ∨ t' = t ∧ ∀ data, (t.node id).content ≠ .file data := by
  unfold openForWriting at h
  split at h
  · cases h
  · rename_i place _
    split at h
    · unfold create at h
      split at h
      · cases h
      · obtain ⟨rfl, rfl⟩ := Prod.mk.inj (Except.ok.inj h)
        have hempty : Content.file [] = .file [] := rfl
        exact .inl (congrArg Node.content (node_addNode t place hempty))
    · rename_i found _
      split at h
      · cases h
      · rename_i hcontent
        split at h
        · cases h
        · split at h
          · obtain ⟨rfl, rfl⟩ := Prod.mk.inj (Except.ok.inj h)
            rw [if_pos rfl]
            exact .inl (node_emptied t actor.user found)
          · rename_i hother
            cases h
            exact .inr ⟨rfl, hother⟩

end FileTree

namespace Machine

variable {m m' : Machine α} {pid : Pid} {p : Process α} {path : Bytes} {mode : Nat}

def SparesFiles : Call → Prop
  | .close _ => True
  | .duplicate .. => True
  | .openFile _ .read => True
  | .exec _ => True
  | .exit _ => True
  | _ => False

theorem openNode_tree (m : Machine α) (pid : Pid) (p : Process α) (id : NodeId) (access : Access) :
    (m.openNode pid p id access).2.tree = m.tree := by
  unfold openNode
  dsimp only
  split <;> rfl

theorem openFifo_tree (m : Machine α) (pid : Pid) (p : Process α) (id : NodeId) (reading : Bool) :
    (m.openFifo pid p id reading).Keeps fun m' => m'.tree = m.tree := by
  have hpipe : (m.pipeOfFifo id).2.tree = m.tree := by
    unfold pipeOfFifo
    split
    · rfl
    · split <;> rfl
  unfold openFifo
  dsimp only
  split
  · exact hpipe
  · exact hpipe

theorem answer_spares_files {c : Call} (h : SparesFiles c) (m : Machine α) (pid : Pid)
    (p : Process α) : (m.answer pid p c).Keeps fun m' => m'.tree = m.tree := by
  cases c with
  | close fd => exact rfl
  | exit code => exact rfl
  | duplicate source target =>
    simp only [answer, duplicate]
    split
    · exact rfl
    · split <;> exact rfl
  | exec arguments =>
    simp only [answer]
    cases Image.search (m.loader p) p.searchPath arguments <;> exact rfl
  | openFile path access =>
    cases access with
    | replace | append => exact h.elim
    | read =>
      simp only [answer, openPath]
      split
      · split
        · exact rfl
        · exact trivial
      · split
        · exact rfl
        · split
          · exact rfl
          · split
            · exact rfl
            · cases hopen : m.tree.openForReading (m.actor p) path with
              | error e => exact rfl
              | ok id =>
                simp only [Except.map]
                split
                · exact openFifo_tree _ pid p id _
                · exact openNode_tree _ pid p id .read
  | _ => exact h.elim

theorem openPath_replaces (hcalm : p.rendezvous? = none) (pid : Pid) (path : Bytes) (mode : Nat) :
    (∀ reason m', m.openPath pid p path (.replace mode) = .answer (.error reason) m' →
      m'.tree = m.tree) ∧
    ∀ fd m', m.openPath pid p path (.replace mode) = .answer (.ok fd) m' →
      ∃ id, m.tree.openForWriting (m.actor p) path mode true = .ok (m'.tree, id) := by
  simp only [openPath, hcalm]
  split
  · exact ⟨by rintro _ _ ⟨⟩; rfl, by rintro _ _ ⟨⟩⟩
  · split
    · exact ⟨by rintro _ _ ⟨⟩; rfl, by rintro _ _ ⟨⟩⟩
    · split
      · exact ⟨by rintro _ _ ⟨⟩; rfl, by rintro _ _ ⟨⟩⟩
      · rename_i hroom
        cases hopen : m.tree.openForWriting (m.actor p) path mode true with
        | error reason => exact ⟨by rintro _ _ ⟨⟩; rfl, by rintro _ _ ⟨⟩⟩
        | ok opened =>
          obtain ⟨tree, id⟩ := opened
          obtain ⟨fd, hfd⟩ := Option.ne_none_iff_exists'.mp hroom
          dsimp only
          split
          · -- a pipe is opened later, when its other side is
            simp [openFifo, Process.allocate, hfd]
          · simp only [openNode, Process.allocate, hfd]
            refine ⟨by rintro _ _ ⟨⟩, ?_⟩
            rintro _ _ ⟨⟩
            exact ⟨id, rfl⟩

end Machine

end PipeShell
