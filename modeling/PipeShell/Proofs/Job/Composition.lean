import PipeShell.Proofs.Job.Surroundings
import PipeShell.Proofs.System.Solo

/-!
A pipeline computes the composition of its stages, whatever the order in which the interpreter and
the stages make their steps. The main theorem is `Scene.composes`.
-/

set_option autoImplicit false
set_option relaxedAutoImplicit false

namespace PipeShell.Scene

section

variable {s : Scene} {ph : Nat → Phase} {left : Nat} {collected : List Pid} {es : List Event}
  {m m' : Machine Report} {p : Process Report}

/-- What has come of a pipeline when the interpreter hands over a result. -/
structure Composed (s : Scene) (es : List Event) (m : Machine Report) (p : Process Report)
    (r : Report) : Prop where
  /-- The status is the code of the last stage, for the input that the stages before it make. -/
  status : r = .outcome ⟨.ok ((s.code s.last).toNat : Int), s.background⟩
  /-- All stages were started, and their processes are gone. -/
  collected : (Event.startedBy s.pid es).length = s.stages.length ∧
    ∀ q ∈ Event.startedBy s.pid es, m.processes.get? q = none
  /-- The interpreter has its old descriptors. -/
  released : p.descriptors.get? = s.base
  /-- What the stages make of the input one after the other stands behind what was in the output.
  That is the file that the last stage has opened, if it asks for one, and else the file or the pipe
  that the interpreter writes to. -/
  output : s.fate s.last = none ∨ (∃ h, s.Outlet (s.openedBy es) h) →
    s.Gathers m (s.already ++ s.feed s.stages.length)

def Returned (s : Scene) (m : Machine Report) : Prop :=
  ∃ p r, m.processes.get? s.pid = some p ∧ p.program = .done r

theorem Staged.composed (hb : s.Begins) (h : s.Staged ph left collected es m)
    (hp : m.processes.get? s.pid = some p) {r : Report} (hdone : p.program = .done r) :
    s.Composed es m p r := by
  obtain ⟨p₁, hp₁, -, hcontract, hconduct⟩ := h.interprets
  cases hp.symm.trans hp₁
  rw [hdone] at hcontract hconduct
  obtain ⟨hstatus, hcollected⟩ := hconduct
  obtain ⟨hreleased, hcomplete⟩ := hcontract _ hstatus
  have hall : (Event.startedBy s.pid es).length = s.stages.length := (hcomplete _ rfl).2.1
  have hgone (q : Pid) (hq : q ∈ Event.startedBy s.pid es) : m.processes.get? q = none :=
    (h.people.gone q (hcollected q hq)).2
  refine ⟨hstatus, ⟨hall, hgone⟩, hreleased, fun houtput => ?_⟩
  have hpositive : 0 < s.stages.length := List.length_pos_iff.mpr hb.stages
  have hlast : s.last + 1 = s.stages.length := by
    have : s.last = s.stages.length - 1 := rfl
    omega
  have hlt : s.last < (Event.startedBy s.pid es).length := by omega
  have hat := h.people.children s.last _ (List.getElem?_eq_getElem hlt)
  rw [hgone _ (List.getElem_mem hlt)] at hat
  have hended : ph s.last = .ended := by
    rcases hat.cases with ⟨_, _, -, hpresent⟩ | ⟨-, _, _, _, hpresent, -⟩ | ⟨hended, -⟩
    · cases hpresent
    · cases hpresent
    · exact hended
  rw [← hlast]
  exact h.flow.delivers.late (by simp [hended, Phase.Late]) houtput

theorem Performance.completes (hb : s.Begins) (hc : s.Consistent) {n : Nat}
    (h : s.Performance n es m) :
    ∃ n' es' m', s.Performance (n + n') (es ++ es') m' ∧ s.Returned m' := by
  generalize hrest : s.span - n = rest
  induction rest using Nat.strong_induction_on generalizing n es m with
  | _ rest ih =>
    obtain ⟨ph, left, collected, hstaged, hbound⟩ := h.staged hb hc
    by_cases hreturned : s.Returned m
    · exact ⟨0, [], m, by simpa using h, hreturned⟩
    · obtain ⟨p, hp, -, -⟩ := hstaged.people.interpreter
      obtain ⟨q, hq, m', hstep⟩ := hstaged.goes_on hb (hc n es m h) hp fun r hdone =>
        hreturned ⟨p, r, hp, hdone⟩
      have h' := h.turn q hq hstep
      obtain ⟨_, _, _, -, hbound'⟩ := h'.staged hb hc
      obtain ⟨n', es', m'', h'', hdone⟩ := ih (s.span - (n + 1)) (by omega) h' rfl
      refine ⟨n' + 1, m.events (.turn q) ++ es', m'', ?_, hdone⟩
      rw [← List.append_assoc, Nat.add_comm n' 1, ← Nat.add_assoc]
      exact h''

/-- In whatever order the interpreter and the stages make their steps: there are only so many of
them, somebody can go on as long as the interpreter has not handed over a result, every way of going
on leads there, and the result is that of the composition of the stages. -/
theorem composes (hb : s.Begins) (hc : s.Consistent) {n : Nat} (h : s.Performance n es m) :
    n ≤ s.span ∧
      (¬ s.Returned m → ∃ q, (q = s.pid ∨ q ∈ Event.startedBy s.pid es) ∧
        ∃ m', m.step q = some m') ∧
      (∃ n' es' m', s.Performance (n + n') (es ++ es') m' ∧ s.Returned m') ∧
      ∀ p r, m.processes.get? s.pid = some p → p.program = .done r → s.Composed es m p r := by
  obtain ⟨ph, left, collected, hstaged, hbound⟩ := h.staged hb hc
  refine ⟨by omega, fun hreturned => ?_, h.completes hb hc,
    fun p r hp hdone => hstaged.composed hb hp hdone⟩
  obtain ⟨p, hp, -, -⟩ := hstaged.people.interpreter
  exact hstaged.goes_on hb (hc n es m h) hp fun r hdone => hreturned ⟨p, r, hp, hdone⟩

end

/-- A program and two files in the root, and the three files of the first process. -/
private def workshop : FileTree where
  root := 0
  nodes := (((((((({} : Table Node).set 0
    { content := .directory 0 [(Bytes.ofString "f", 4),
      (Bytes.ofString "i", 5), (Bytes.ofString "o", 6)], mode := 0o755 }).set
    Setup.inputNode { content := .file [], mode := 0o600 }).set
    Setup.outputNode { content := .file [], mode := 0o600 }).set
    Setup.complaintsNode { content := .file [], mode := 0o600 }).set
    4 { content := .program [], mode := 0o755 }).set
    5 { content := .file (Bytes.ofString "x"), mode := 0o644 }).set
    6 { content := .file (Bytes.ofString "old"), mode := 0o644 })

private def twoStages (piped : Bool) : List Stage :=
  [{ arguments := ["/f", "a"], inputFile := some "/i" },
    { arguments := ["/f", "b"], outputFile := if piped then none else some "/o" }]

private def work (piped : Bool) : Program Report := do
  return .outcome (← Action.execute (.run { stages := twoStages piped }) {})

private def worker (piped : Bool) : Process Report :=
  { Machine.soloist (work piped) with
    descriptors := if piped then Setup.descriptors.set Fd.output (.writeEnd 0)
      else Setup.descriptors }

private def onlooker : Process Report where
  parent := 0
  program := Program.exit 0
  descriptors := ({} : Table Handle).set Fd.input (.readEnd 0)
  directory := 0

/-- Two stages whose program puts its last argument behind what it reads, and ends with the number
of its arguments. The first one reads a file. The second one writes over another one, or to the pipe
that the interpreter writes to. -/
private def appending (piped : Bool) : Scene where
  machine := { Machine.solo (work piped) (fun _ arguments => Program.filter fun input =>
      (input ++ arguments.getLastD [], UInt8.ofNat arguments.length)) with
    tree := workshop
    pipes := ({} : Table Pipe).set 0 {}
    processes := (({} : Table (Process Report)).set Setup.pid (worker piped)).set 2 onlooker
    nextPid := 3 }
  pid := Setup.pid
  process := worker piped
  stages := twoStages piped
  outlook _ := { opens := fun _ _ => true, refusal? := fun _ => none }
  tool k input := (input ++ Bytes.ofString ((["a", "b"]).getD k ""), 2)
  source := 5
  data := Bytes.ofString "x"
  sink := 6
  drain? := if piped then some 0 else none

private theorem appending_process {piped : Bool} {pid : Pid} {p : Process Report}
    (h : (appending piped).machine.processes.get? pid = some p) :
    pid = 2 ∧ p = onlooker ∨ pid = Setup.pid ∧ p = worker piped := by
  have h : ((({} : Table (Process Report)).set Setup.pid (worker piped)).set 2 onlooker).get? pid =
      some p := h
  rw [Table.get?_set, Table.get?_set] at h
  split at h
  · next he => exact .inl ⟨he, (Option.some.inj h).symm⟩
  · split at h
    · next he => exact .inr ⟨he, (Option.some.inj h).symm⟩
    · cases h

private theorem appending_sound (piped : Bool) : (appending piped).machine.Sound where
  numbered pid p h := by
    rcases appending_process h with ⟨rfl, rfl⟩ | ⟨rfl, rfl⟩
    · exact ⟨Nat.lt_succ_self _, Nat.succ_pos _⟩
    · exact ⟨Nat.lt_succ_of_lt (Nat.lt_succ_self _), Nat.succ_pos _⟩
  known pid p h handle hm := by
    rcases appending_process h with ⟨-, rfl⟩ | ⟨-, rfl⟩
    · have hm : handle ∈ [Handle.readEnd 0] := hm
      cases List.mem_singleton.mp hm
      rfl
    · cases piped with
      | false =>
        have hm : handle ∈ [Handle.file 0, .file 1, .file 2] := hm
        simp only [List.mem_cons, List.not_mem_nil, or_false] at hm
        rcases hm with rfl | rfl | rfl <;> rfl
      | true =>
        have hm : handle ∈ [Handle.file 0, .writeEnd 0, .file 2] := hm
        simp only [List.mem_cons, List.not_mem_nil, or_false] at hm
        rcases hm with rfl | rfl | rfl <;> rfl
  fifos id number h := by cases h

private theorem appending_begins (piped : Bool) : (appending piped).Begins where
  sound := appending_sound piped
  present := by cases piped <;> rfl
  lives := ⟨rfl, rfl⟩
  calm := ⟨rfl, rfl⟩
  program := rfl
  stages := by simp [appending, twoStages]
  strings := by cases piped <;> decide
  unbounded := rfl
  room := ⟨[3, 4, 5, 6], by decide, rfl, by cases piped <;> decide⟩
  limit := by cases piped <;> decide
  standard := by cases piped <;> decide
  ignores := by cases piped <;> decide
  data := rfl
  apart := by cases piped <;> decide
  complaints := by
    intro h hh
    obtain rfl : .file 2 = h := by cases piped <;> exact Option.some.inj hh
    constructor
    · rintro n file ⟨⟩ hfile
      cases hfile
      cases piped <;> decide
    · cases piped with
      | false =>
        rintro n file ⟨⟩ hfile
        cases hfile
        decide
      | true => exact ⟨by simp, by simp⟩
  input := by
    rintro stage ⟨⟩
    exact rfl
  output := by
    rintro stage ⟨⟩
    cases piped with
    | false => exact ⟨rfl, rfl⟩
    | true => exact ⟨.writeEnd 0, rfl, rfl, {}, rfl, rfl⟩
  reader := by
    intro n hn
    cases piped with
    | false => cases hn
    | true =>
      cases hn
      exact ⟨2, onlooker, Fd.input, by decide, rfl, rfl⟩

private theorem permits_search (content : Content) (user : Nat) :
    Node.permits { content := content, mode := 0o755 } user .search = true := by
  have hothers : 0o755 &&& Node.Wish.search.bit ≠ 0 := by decide
  by_cases huser : user = 0
  · subst huser
    simp [Node.permits]
  · simp only [Node.permits, if_neg huser]
    exact decide_eq_true hothers

private def route (id : NodeId) : Prop := id = 0 ∨ id = 4 ∨ id = 5

private theorem appending_root {piped : Bool} {t : FileTree}
    (hlike : (appending piped).Like route t) :
    t.node 0 = { content := .directory 0 [([102], 4), ([105], 5), ([111], 6)], mode := 0o755 } := by
  rw [FileTree.node, hlike.2 0 (.inl rfl)]
  rfl

private theorem locate_name {piped : Bool} {t : FileTree} (hlike : (appending piped).Like route t)
    (user : Nat) (directory : NodeId) (aim : FileTree.Aim) {b : UInt8} {id : NodeId} (hdot : b ≠ 46)
    (hslash : b ≠ Bytes.slash) (hid : [([102], 4), ([105], 5), ([111], 6)].lookup [b] = some id)
    (hfile : (t.node id).content.kind = .file) :
    t.locate user directory aim [Bytes.slash, b] = .ok ⟨0, [b], some id⟩ := by
  have hroot : t.root = 0 := hlike.1
  have hroute : FileTree.Route.ofPath [Bytes.slash, b] = ⟨[[b]], false⟩ := by
    simp [FileTree.Route.ofPath, Bytes.splitAt, Bytes.addToPieces, hslash]
  have hwalk : t.walk user aim FileTree.linkLimit 0 [[b]] false = .ok ⟨0, [b], some id⟩ := by
    rw [FileTree.walk]
    cases hcontent : (t.node id).content <;>
      simp_all [appending_root hlike, permits_search, FileTree.here, FileTree.above, Content.kind]
  simp only [FileTree.locate, hroute, FileTree.start, hroot]
  exact hwalk

private theorem appending_program {piped : Bool} {t : FileTree}
    (hlike : (appending piped).Like route t) :
    t.node 4 = { content := .program [], mode := 0o755 } := by
  rw [FileTree.node, hlike.2 4 (.inr (.inl rfl))]
  rfl

private theorem appending_source {piped : Bool} {t : FileTree}
    (hlike : (appending piped).Like route t) :
    t.node 5 = { content := .file (Bytes.ofString "x"), mode := 0o644 } := by
  rw [FileTree.node, hlike.2 5 (.inr (.inr rfl))]
  rfl

private theorem appending_loads {piped : Bool} {l : Image.Loader}
    (hlike : (appending piped).Like route l.tree) (hbusy : ∀ id ∈ l.busy, ¬ route id)
    (searchPath : Bytes) {argument : Bytes} (hshort : Image.tooLong [[47, 102], argument] = false) :
    Image.search l searchPath [[47, 102], argument] = .ok ⟨[], [[47, 102], argument]⟩ := by
  have hprogram := appending_program hlike
  have hidle : 4 ∉ l.busy := fun h => hbusy 4 h (.inr (.inl rfl))
  have hlocate : l.tree.locate l.user l.directory .target [47, 102] = .ok ⟨0, [102], some 4⟩ :=
    locate_name hlike _ _ _ (by decide) (by decide) rfl (by rw [hprogram]; rfl)
  have hfind : l.find [47, 102] = .ok { content := .program [], mode := 0o755 } := by
    simp only [Image.Loader.find, FileTree.find, hlocate]
    simp [hprogram, Content.kind, permits_search, hidle, bind, Except.bind]
  simp [Image.search, Image.loadOrShell, hshort, Image.load, hfind, Bytes.slash]

private theorem appending_surroundings (piped : Bool) :
    (appending piped).Surroundings route (fun id => route id ∨ id = 6) where
  early_of_lasting id := .inl
  unwritable := by
    intro n file hfile hwritable
    have hfile : (Setup.openFiles Setup.inputNode).get? n = some file := hfile
    simp only [Setup.openFiles, Table.get?_set, Table.get?_empty] at hfile
    split at hfile
    · cases hfile
      simp [route, Setup.complaintsNode]
    · split at hfile
      · cases hfile
        simp [route, Setup.outputNode]
      · split at hfile
        · cases hfile
          cases hwritable
        · cases hfile
  sink := by simp [route, appending]
  programs := by
    intro k stage l hstage hlike _ _ hbusy
    rcases k with _ | _ | k
    · obtain rfl : _ = stage := Option.some.inj hstage
      exact ⟨⟨[], [[47, 102], [97]]⟩, appending_loads hlike hbusy _ (by decide), rfl⟩
    · obtain rfl : _ = stage := Option.some.inj hstage
      exact ⟨⟨[], [[47, 102], [98]]⟩, appending_loads hlike hbusy _ (by decide), rfl⟩
    · exact absurd hstage (by simp [appending, twoStages])
  input := by
    intro stage path hstage hrequest t hlike
    obtain rfl : _ = stage := Option.some.inj hstage
    obtain ⟨rfl, -⟩ := Prod.mk.inj (Option.some.inj hrequest)
    have hsource := appending_source hlike
    have hlocate : t.locate 0 0 .target [47, 105] = .ok ⟨0, [105], some 5⟩ :=
      locate_name hlike _ _ _ (by decide) (by decide) rfl (by rw [hsource]; rfl)
    show t.openForReading { user := 0, directory := 0 } [47, 105] = .ok 5
    simp only [FileTree.openForReading, FileTree.find, hlocate]
    simp [hsource, Node.permits, bind, Except.bind]
  output := by
    intro stage path hstage hrequest t hlike hnext
    obtain rfl : _ = stage := Option.some.inj hstage
    cases piped with
    | true => cases hrequest
    | false =>
      obtain ⟨rfl, -⟩ := Prod.mk.inj (Option.some.inj hrequest)
      have hroute : (appending false).Like route t := ⟨hlike.1, fun id hid => hlike.2 id (.inl hid)⟩
      have hget : t.nodes.get? 6 =
          some { content := .file (Bytes.ofString "old"), mode := 0o644 } := hlike.2 6 (.inr rfl)
      have hsink : t.node 6 = { content := .file (Bytes.ofString "old"), mode := 0o644 } := by
        rw [FileTree.node, hget]; rfl
      have hlocate : t.locate 0 0 .creation [47, 111] = .ok ⟨0, [111], some 6⟩ :=
        locate_name hroute _ _ _ (by decide) (by decide) rfl (by rw [hsink]; rfl)
      show ∃ t' node, t.openForWriting { user := 0, directory := 0 } [47,
          111] 0o644 true = .ok (t', 6) ∧ _
      refine ⟨t.setData 0 6 [], { content := .file [], mode := 0o644 }, ?_,
        ⟨hlike.1, fun id hid => ?_⟩, ?_, rfl⟩
      · simp [FileTree.openForWriting, hlocate, hsink, Node.permits]
      · have hne : id ≠ 6 := by
          rintro rfl
          simp [route] at hid
        rw [Machine.get?_setData, if_neg hne]
        exact hroute.2 id hid
      · show (t.setData 0 6 []).nodes.get? 6 = _
        rw [Machine.get?_setData, if_pos rfl, hget]
        rfl

private theorem appending_performs (piped : Bool) : ∃ n es m,
    (appending piped).Performance n es m ∧ (appending piped).Returned m := by
  have hconsistent := (appending_begins piped).consistent (appending_surroundings piped)
  obtain ⟨n, es, m, hperformance, hreturned⟩ :=
    Performance.start.completes (appending_begins piped) hconsistent
  rw [Nat.zero_add, List.nil_append] at hperformance
  exact ⟨n, es, m, hperformance, hreturned⟩

/-- Performances of two stages, the first of which reads a file. The second one writes over another
file, or to a pipe that somebody else can read from. Both come to their end, and then the
composition of the stages stands in that file, or in the pipe. -/
theorem composes_of_two_stages :
    (∃ (s : Scene) (n : Nat) (es : List Event) (m : Machine Report),
      s.Begins ∧ s.Consistent ∧ s.stages.length = 2 ∧ s.Performance n es m ∧
        s.Returned m ∧ n ≤ s.span ∧
        (Event.startedBy s.pid es).length = 2 ∧ m.dataOf s.sink = Bytes.ofString "xab") ∧
    ∃ (s : Scene) (n : Nat) (es : List Event) (m : Machine Report) (pipe : Pipe),
      s.Begins ∧ s.Consistent ∧ s.base Fd.output = some (.writeEnd 0) ∧ s.Performance n es m ∧
        s.Returned m ∧ m.pipes.get? 0 = some pipe ∧ pipe.content = Bytes.ofString "xab" := by
  have hconsistent (piped : Bool) : (appending piped).Consistent :=
    (appending_begins piped).consistent (appending_surroundings piped)
  constructor
  · obtain ⟨n, es, m, hperformance, p, r, hp, hdone⟩ := appending_performs false
    obtain ⟨hspan, -, -, hcomposed⟩ :=
      composes (appending_begins false) (hconsistent false) hperformance
    obtain ⟨-, ⟨hstarted, -⟩, -, houtput⟩ := hcomposed p r hp hdone
    refine ⟨appending false, n, es, m, appending_begins false, hconsistent false, rfl, hperformance,
      ⟨p, r, hp, hdone⟩, hspan, hstarted, ?_⟩
    have hcontent : (m.tree.node (appending false).sink).content = .file (Bytes.ofString "xab") :=
      houtput (.inl rfl)
    simp [Machine.dataOf, hcontent]
  · obtain ⟨n, es, m, hperformance, p, r, hp, hdone⟩ := appending_performs true
    obtain ⟨-, -, -, hcomposed⟩ := composes (appending_begins true) (hconsistent true) hperformance
    obtain ⟨pipe, hpipe, hcontent⟩ := (hcomposed p r hp hdone).output (.inl rfl)
    exact ⟨appending true, n, es, m, pipe, appending_begins true, hconsistent true, rfl,
      hperformance, ⟨p, r, hp, hdone⟩, hpipe, hcontent⟩

end PipeShell.Scene
