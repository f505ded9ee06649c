import Mathlib.Logic.Function.Basic
import PipeShell.Proofs.Job.Measures
import PipeShell.System.Machine

/-!
Where the descriptors of a stage lead when its program is about to run. A stage starts with the
descriptors of the interpreter, among them both ends of the pipe before it and of the pipe behind
it; it ends up with one end of each as its input and output, and with nothing else that the
interpreter did not have before the pipeline was started.
-/

set_option autoImplicit false
set_option relaxedAutoImplicit false

namespace PipeShell

abbrev Wires := Fd → Option Handle

/-- A file that was opened, as it was asked for, and where the descriptor led. -/
structure Opening where
  path : Bytes
  access : Access
  handle : Handle
  deriving DecidableEq, Repr

/-- A pipe of a pipeline with the descriptors of the interpreter for its ends. -/
structure Joint where
  link : Link
  pipe : Nat

namespace Joint

def plug (w : Wires) : Option Joint → Wires
  | none => w
  | some j =>
    Function.update (Function.update w j.link.readEnd (some (.readEnd j.pipe))) j.link.writeEnd
      (some (.writeEnd j.pipe))

def Fits (w : Wires) : Option Joint → Prop
  | none => True
  | some j => w j.link.readEnd = none ∧ w j.link.writeEnd = none ∧ j.link.readEnd ≠ j.link.writeEnd

section

variable {w : Wires} {j j' : Option Joint}

theorem plug_comm (h : Fits w j) (h' : Fits (plug w j) j') :
    plug (plug w j) j' = plug (plug w j') j := by
  cases j with
  | none => rfl
  | some j =>
    cases j' with
    | none => rfl
    | some j' =>
      funext fd
      simp only [Fits, plug, Function.update_apply] at h h' ⊢
      grind

theorem Fits.swap (h : Fits w j) (h' : Fits (plug w j) j') : Fits w j' ∧ Fits (plug w j') j := by
  cases j with
  | none => exact ⟨h', trivial⟩
  | some j =>
    cases j' with
    | none => exact ⟨trivial, h⟩
    | some j' =>
      simp only [Fits, plug, Function.update_apply] at h h' ⊢
      grind

theorem plug_update {fd : Fd} (h : Fits w j) (hopen : w fd ≠ none) (handle : Handle) :
    Function.update (plug w j) fd (some handle) = plug (Function.update w fd (some handle)) j := by
  cases j with
  | none => rfl
  | some j =>
    funext x
    simp only [Fits, plug, Function.update_apply] at h ⊢
    grind

theorem Fits.update {fd : Fd} (h : Fits w j) (hopen : w fd ≠ none) (handle : Handle) :
    Fits (Function.update w fd (some handle)) j := by
  cases j with
  | none => trivial
  | some j =>
    simp only [Fits, Function.update_apply] at h ⊢
    grind

theorem plug_of_open {fd : Fd} (h : Fits w j) (hopen : w fd ≠ none) : plug w j fd = w fd := by
  cases j with
  | none => rfl
  | some j =>
    simp only [Fits, plug, Function.update_apply] at h ⊢
    grind

theorem plug_readEnd {j : Joint} (h : Fits w (some j)) :
    plug w (some j) j.link.readEnd = some (.readEnd j.pipe) := by
  simp only [plug]
  rw [Function.update_of_ne h.2.2, Function.update_self]

theorem plug_writeEnd (w : Wires) (j : Joint) :
    plug w (some j) j.link.writeEnd = some (.writeEnd j.pipe) := by
  simp only [plug]
  rw [Function.update_self]

theorem plug_elsewhere (w : Wires) (j : Option Joint) :
    ∃ link : Link, ∀ fd, fd ≠ link.readEnd → fd ≠ link.writeEnd → plug w j fd = w fd := by
  cases j with
  | none => exact ⟨⟨0, 0⟩, fun _ _ _ => rfl⟩
  | some j =>
    refine ⟨j.link, fun fd hread hwrite => ?_⟩
    rw [plug, Function.update_of_ne hwrite, Function.update_of_ne hread]

end

end Joint

namespace Stage

def inputRequest? (stage : Stage) : Option (Bytes × Access) :=
  stage.inputFile.map fun file => (Bytes.ofString file, .read)

def outputRequest? (stage : Stage) : Option (Bytes × Access) :=
  stage.outputFile.map fun file => (Bytes.ofString file, .replace 0o644)

/-- What a stage has done about its descriptors: where they lead, and the files that it has
opened. -/
structure Plumbing where
  wires : Wires
  opened : List Opening := []

/-- A descriptor leads to an end of a pipe if there is one, else to the file that was asked for if
there is one, and else to where it has led before. -/
def Attached (base : Wires) (fd : Fd) (pipeEnd? : Option Handle)
    (request? : Option (Bytes × Access)) (g : Plumbing) : Prop :=
  match pipeEnd?, request? with
  | some handle, _ => g.wires fd = some handle
  | none, some (path, access) =>
    ∃ handle, ⟨path, access, handle⟩ ∈ g.opened ∧ g.wires fd = some handle
  | none, none => g.wires fd = base fd

theorem Attached.mono {base : Wires} {fd : Fd}
    {pipeEnd? : Option Handle} {request? : Option (Bytes × Access)}
    {g g' : Plumbing} (h : Attached base fd pipeEnd? request? g) (hwires : g'.wires fd = g.wires fd)
    (hopened : ∀ o ∈ g.opened, o ∈ g'.opened) : Attached base fd pipeEnd? request? g' := by
  unfold Attached at h ⊢
  rw [hwires]
  cases pipeEnd? with
  | some handle => exact h
  | none =>
    cases request? with
    | none => exact h
    | some request =>
      obtain ⟨handle, hmem, heq⟩ := h
      exact ⟨handle, hopened _ hmem, heq⟩

theorem Attached.of_base {base base' : Wires} {fd : Fd}
    {pipeEnd? : Option Handle} {request? : Option (Bytes × Access)}
    {g : Plumbing} (h : Attached base fd pipeEnd? request? g) (hbase : base fd = base' fd) :
    Attached base' fd pipeEnd? request? g := by
  unfold Attached at h ⊢
  rwa [← hbase]

theorem Attached.exists_handle {base : Wires} {fd : Fd}
    {pipeEnd? : Option Handle} {request? : Option (Bytes × Access)}
    {g : Plumbing} (h : Attached base fd pipeEnd? request? g) (hopen : base fd ≠ none) :
    ∃ handle, g.wires fd = some handle := by
  unfold Attached at h
  split at h
  · exact ⟨_, h⟩
  · obtain ⟨handle, -, hhandle⟩ := h
    exact ⟨handle, hhandle⟩
  · rw [h]
    exact Option.ne_none_iff_exists'.mp hopen

/-- The descriptors of a stage between two pipes, when its program is about to run. -/
structure Wired (base : Wires) (stage : Stage) (before behind : Option Nat)
    (g : Plumbing) : Prop where
  input : Attached base Fd.input (before.map .readEnd) stage.inputRequest? g
  output : Attached base Fd.output (behind.map .writeEnd) stage.outputRequest? g
  others : ∀ fd, fd ≠ Fd.input → fd ≠ Fd.output → g.wires fd = base fd

def MayOpen (stage : Stage) (before behind : Option Nat) (path : Bytes) (access : Access) : Prop :=
  before = none ∧ stage.inputRequest? = some (path, access) ∨
    behind = none ∧ stage.outputRequest? = some (path, access)

/-- How a stage is placed when it opens a file: its descriptors lead where they did, but for those
of its input and its output and those of one pipe at most, and it has opened no file in the same
way. -/
structure Ready (base : Wires) (access : Access) (g : Plumbing) : Prop where
  room : ∃ link : Link, ∀ fd, fd ≠ Fd.input → fd ≠ Fd.output → fd ≠ link.readEnd →
    fd ≠ link.writeEnd → g.wires fd = base fd
  first : ∀ o ∈ g.opened, o.access ≠ access

/-- What a stage between two pipes may do before its program runs, and what comes of it. -/
def contract (base : Wires) (stage : Stage) (before behind : Option Nat) : Contract Plumbing where
  may g
    | .close _ | .write .. | .exit _ => True
    | .duplicate source _ => g.wires source ≠ none
    | .openFile path access => stage.MayOpen before behind path access ∧ Ready base access g
    | .exec arguments =>
      arguments = stage.arguments.map Bytes.ofString ∧ Wired base stage before behind g
    | _ => False
  gives g
    | .close fd, _, g' => g' = { g with wires := Function.update g.wires fd none }
    | .duplicate source target, .ok (), g' =>
      ∃ handle, g.wires source = some handle ∧
        g' = { g with wires := Function.update g.wires target (some handle) }
    | .openFile path access, .ok fd, g' =>
      ∃ handle, g.wires fd = none ∧
        g' = ⟨Function.update g.wires fd (some handle), g.opened ++ [⟨path, access, handle⟩]⟩
    | _, _, g' => g' = g
  mayStart _ _ _ _ := False
  starts _ _ _ := False

/-- A standard descriptor was connected, and nothing else has been done to the descriptors. -/
structure Linked (w : Wires) (opened : List Opening) (target : Fd) (access : Access)
    (pipeEnd? : Option Handle) (request? : Option (Bytes × Access)) (g : Plumbing) : Prop where
  attached : Attached w target pipeEnd? request? g
  others : ∀ fd, fd ≠ target → g.wires fd = w fd
  kept : ∃ more, g.opened = opened ++ more ∧ ∀ o ∈ more, o.access = access

section

variable {base : Wires} {stage : Stage}

theorem redirect_linked {before behind : Option Nat} {w : Wires} {j : Joint}
    {source target : Fd} {handle : Handle} {opened : List Opening} {access : Access}
    {request? : Option (Bytes × Access)} (hfit : Joint.Fits w (some j))
    (hsource : Joint.plug w (some j) source = some handle) (htarget : w target ≠ none) :
    (redirect source target j.link.release).Honours (contract base stage before behind)
      (fun r g => r = .ok () → Linked w opened target access (some handle) request? g)
      ⟨Joint.plug w (some j), opened⟩ := by
  have hmay : (contract base stage before behind).may ⟨Joint.plug w (some j), opened⟩
      (.duplicate source target) :=
    fun hnone => absurd (hnone.symm.trans hsource) (by simp)
  refine honours_redirect hmay fun reply g₁ hdup => ?_
  refine honours_release trivial fun g₂ hread => ?_
  refine Program.honours_act trivial fun _ g₃ hwrite hok => ?_
  cases reply with
  | error reason => exact absurd hok nofun
  | ok =>
    obtain ⟨handle', hsource', rfl⟩ := hdup
    cases hsource.symm.trans hsource'
    have hread : g₂ = _ := hread
    have hwrite : g₃ = _ := hwrite
    have hg : g₃ = ⟨Function.update w target (some handle), opened⟩ := by
      rw [hwrite, hread]
      congr 1
      funext fd
      simp only [Joint.Fits, Joint.plug, Function.update_apply] at hfit ⊢
      grind
    rw [hg]
    exact ⟨by simp [Attached], fun fd hfd => Function.update_of_ne hfd _ _, [], by simp, by simp⟩

theorem attachFile_linked {before behind : Option Nat}
    {file : String} {access : Access} {target : Fd} {w : Wires}
    {opened : List Opening} (hmay : stage.MayOpen before behind (Bytes.ofString file) access)
    (hready : Ready base access ⟨w, opened⟩) (htarget : w target ≠ none) :
    (attachFile file access target).Honours (contract base stage before behind)
      (fun r g => r = .ok () →
        Linked w opened target access none (some (Bytes.ofString file, access)) g)
      ⟨w, opened⟩ := by
  refine honours_attachFile (fun _ hok => by cases hok) (fun _ => ⟨hmay, hready⟩)
    (fun _ _ _ _ hok => by cases hok) ?_
  rintro - fd g₁ ⟨handle, hfree, rfl⟩
  refine honours_redirect (by simp [contract]) fun reply g₂ hdup => ?_
  refine Program.honours_act trivial fun _ g₃ hclose hok => ?_
  cases reply with
  | error reason => exact absurd hok nofun
  | ok =>
    obtain ⟨handle', hsource, rfl⟩ := hdup
    dsimp only at hsource
    rw [Function.update_self] at hsource
    cases hsource
    have hne : fd ≠ target := by
      rintro rfl
      exact htarget hfree
    have hg : g₃ = ⟨Function.update (Function.update (Function.update w fd (some handle)) target
        (some handle)) fd none, opened ++ [⟨Bytes.ofString file, access, handle⟩]⟩ := hclose
    rw [hg]
    refine ⟨⟨handle, by simp, ?_⟩, fun fd' hfd => ?_, _, rfl, by simp⟩
    · exact (Function.update_of_ne hne.symm _ _).trans (Function.update_self ..)
    · simp only [Function.update_apply, if_neg hfd]
      split
      · next heq => exact heq ▸ hfree.symm
      · rfl

theorem Connector.linked {before behind : Option Nat} {x : Option Link → Step}
    {source : Link → Fd} {target : Fd} {file? : Option String}
    {access : Access} (hx : Connector x source target file? access) {w : Wires}
    {j : Option Joint} {opened : List Opening} (handle : Nat → Handle) (hfit : Joint.Fits w j)
    (htarget : w target ≠ none) (hsource : ∀ joint, j = some joint →
      Joint.plug w j (source joint.link) = some (handle joint.pipe))
    (hmay : j = none → ∀ file, file? = some file →
      stage.MayOpen before behind (Bytes.ofString file) access)
    (hready : Ready base access ⟨w, opened⟩) :
    (x (j.map (·.link))).Honours (contract base stage before behind)
      (fun r g => r = .ok () → Linked w opened target access ((j.map (·.pipe)).map handle)
        (file?.map fun file => (Bytes.ofString file, access)) g) ⟨Joint.plug w j, opened⟩ := by
  refine hx.honours ?_ ?_ ?_
  · intro link hlink
    obtain ⟨joint, rfl, rfl⟩ := Option.map_eq_some_iff.mp hlink
    exact redirect_linked hfit (hsource joint rfl) htarget
  · rintro hnone file rfl
    obtain rfl := Option.map_eq_none_iff.mp hnone
    exact attachFile_linked (hmay rfl file rfl) hready htarget
  · rintro hnone rfl -
    obtain rfl := Option.map_eq_none_iff.mp hnone
    exact ⟨rfl, fun _ _ => rfl, [], by simp, by simp⟩

end

section

variable {base : Wires} {stage : Stage} {before behind : Option Joint}

theorem connectInput_honours (hinput : base Fd.input ≠ none) (hbefore : Joint.Fits base before)
    (hbehind : Joint.Fits (Joint.plug base before) behind) :
    (stage.connectInput (before.map (·.link))).Honours
      (contract base stage (before.map (·.pipe)) (behind.map (·.pipe)))
      (fun r g => r = .ok () → ∃ w, g.wires = Joint.plug w behind ∧ Joint.Fits w behind ∧
        (∀ fd, fd ≠ Fd.input → w fd = base fd) ∧ (∀ o ∈ g.opened, o.access = .read) ∧
        Attached base Fd.input
          ((before.map (·.pipe)).map .readEnd) stage.inputRequest? ⟨w, g.opened⟩)
      ⟨Joint.plug (Joint.plug base before) behind, []⟩ := by
  obtain ⟨hfit, hfit'⟩ := Joint.Fits.swap hbefore hbehind
  have hsame : Joint.plug base behind Fd.input = base Fd.input := Joint.plug_of_open hfit hinput
  obtain ⟨link, hlink⟩ := Joint.plug_elsewhere base behind
  rw [Joint.plug_comm hbefore hbehind]
  refine ((connectInput_connector stage).linked .readEnd hfit' (by rwa [hsame]) ?_ ?_ ?_).mono ?_
  · rintro joint rfl
    exact Joint.plug_readEnd hfit'
  · rintro rfl file hfile
    exact .inl ⟨rfl, by simp [inputRequest?, hfile]⟩
  · exact ⟨⟨link, fun fd _ _ => hlink fd⟩, by simp⟩
  · intro r g h hok
    obtain ⟨hattached, hothers, more, hopened, hread⟩ := h hok
    obtain ⟨handle, hhandle⟩ := hattached.exists_handle (by rwa [hsame])
    refine ⟨Function.update base Fd.input (some handle), ?_, hfit.update hinput handle,
      fun fd hfd => Function.update_of_ne hfd _ _, by simpa [hopened] using hread, ?_⟩
    · rw [← Joint.plug_update hfit hinput]
      funext fd
      by_cases hfd : fd = Fd.input
      · rw [hfd, Function.update_self, hhandle]
      · rw [Function.update_of_ne hfd, hothers fd hfd]
    · refine (hattached.of_base hsame).mono ?_ fun o ho => ho
      show Function.update base Fd.input (some handle) Fd.input = _
      rw [Function.update_self, hhandle]

theorem connectOutput_honours {w : Wires} {opened : List Opening}
    (hbase : ∀ fd, fd ≠ Fd.input → w fd = base fd) (houtput : base Fd.output ≠ none)
    (hfit : Joint.Fits w behind) (hread : ∀ o ∈ opened, o.access = .read)
    (hin : Attached base Fd.input
      ((before.map (·.pipe)).map .readEnd) stage.inputRequest? ⟨w, opened⟩) :
    (stage.connectOutput (behind.map (·.link))).Honours
      (contract base stage (before.map (·.pipe)) (behind.map (·.pipe)))
      (fun r g => r = .ok () → Wired base stage (before.map (·.pipe)) (behind.map (·.pipe)) g)
      ⟨Joint.plug w behind, opened⟩ := by
  have hsame : w Fd.output = base Fd.output := hbase _ (by decide)
  refine ((connectOutput_connector stage).linked .writeEnd hfit (by rwa [hsame]) ?_ ?_ ?_).mono ?_
  · rintro joint rfl
    exact Joint.plug_writeEnd w joint
  · rintro rfl file hfile
    exact .inr ⟨rfl, by simp [outputRequest?, hfile]⟩
  · exact ⟨⟨⟨0, 0⟩, fun fd hfd _ _ _ => hbase fd hfd⟩, fun o ho => by simp [hread o ho]⟩
  · intro r g h hok
    obtain ⟨hattached, hothers, more, hopened, -⟩ := h hok
    refine ⟨hin.mono (hothers _ (by decide)) fun o ho => ?_, hattached.of_base hsame,
      fun fd hfd hfd' => ?_⟩
    · rw [hopened]
      exact List.mem_append_left more ho
    · exact (hothers fd hfd').trans (hbase fd hfd)

/-- The process of a stage runs its program with the descriptors that are meant for it, and before
that opens no files but its own. -/
theorem process_honours {α : Type} (hinput : base Fd.input ≠ none) (houtput : base Fd.output ≠ none)
    (hbefore : Joint.Fits base before) (hbehind : Joint.Fits (Joint.plug base before) behind) :
    (stage.process (before.map (·.link)) (behind.map (·.link)) : Program α).Honours
      (contract base stage (before.map (·.pipe)) (behind.map (·.pipe))) (fun _ _ => False)
      ⟨Joint.plug (Joint.plug base before) behind, []⟩ := by
  refine honours_process (F := fun _ _ => True)
    (O := fun r g => r = .ok () → Wired base stage (before.map (·.pipe)) (behind.map (·.pipe)) g)
    (connectInput_honours hinput hbefore hbehind) ?_ ?_ (fun _ _ _ => trivial) ?_ fun _ _ _ =>
    honours_giveUp trivial fun _ _ _ => trivial
  · intro fault g _
    exact honours_releaseAny trivial fun link _ =>
      honours_release trivial fun _ _ => Program.honours_act trivial fun _ _ _ => trivial
  · rintro ⟨wires, opened⟩ h
    obtain ⟨w, rfl, hfit, hbase, hread, hin⟩ := h rfl
    exact connectOutput_honours hbase houtput hfit hread hin
  · intro g h
    exact honours_runProgram (fun _ => trivial) fun _ _ _ => ⟨⟨rfl, h rfl⟩, fun _ _ _ => trivial⟩

end

end Stage

end PipeShell
