import PipeShell.Proofs.System.Courses

/-!
The parts of the process of a stage, each of them taken apart once: which of its calls have to be
permitted for the part to honour a contract, and how a course of it begins.
-/

set_option autoImplicit false
set_option relaxedAutoImplicit false

namespace PipeShell

open Program

variable {α γ : Type}

def Contract.only (may : Call → Prop) : Contract Unit where
  may _ := may
  gives _ _ _ _ := True
  mayStart _ _ _ _ := False
  starts _ _ _ := False

theorem Program.confined_of_honours {may : Call → Prop} {Q : α → Prop} {x : Program α}
    (h : x.Honours (.only may) (fun a _ => Q a) ()) : x.Confined may False Q := by
  induction x with
  | done a => exact h
  | call c next ih => exact ⟨h.1, fun reply => ih reply (h.2 reply () trivial)⟩
  | fork child next _ ih =>
    obtain ⟨⟨stage, previous, link, -, hstart⟩, -⟩ := h
    exact hstart.elim
  | transfer | flood => exact h.elim

namespace Stage

/-- How a standard descriptor is connected: to an end of a pipe, else to a file, else not at all. -/
structure Connector (x : Option Link → Step) (source : Link → Fd) (target : Fd)
    (file? : Option String) (access : Access) : Prop where
  link : ∀ link, x (some link) = redirect (source link) target link.release
  file : ∀ file, file? = some file → x none = attachFile file access target
  neither : file? = none → x none = pure (.ok ())

theorem connectInput_connector (stage : Stage) :
    Connector stage.connectInput Link.readEnd Fd.input stage.inputFile .read where
  link _ := rfl
  file file hfile := by simp only [connectInput, hfile]
  neither hnone := by simp only [connectInput, hnone]

theorem connectOutput_connector (stage : Stage) :
    Connector stage.connectOutput Link.writeEnd Fd.output stage.outputFile (.replace 0o644) where
  link _ := rfl
  file file hfile := by simp only [connectOutput, hfile]
  neither hnone := by simp only [connectOutput, hnone]

def giveUp (fault : StageFault) : Program α := do
  Program.put Fd.complaints (Bytes.ofString ("minish: " ++ fault.message ++ "\n"))
  Program.exit fault.code

theorem process_eq (stage : Stage) (previous next : Option Link) :
    (stage.process previous next : Program α) =
    stage.connectInput previous >>= fun
      | .error fault => Link.releaseAny next >>= fun _ => giveUp fault
      | .ok () => stage.connectOutput next >>= fun
        | .error fault => giveUp fault
        | .ok () => stage.runProgram >>= giveUp := by
  refine (bind_assoc _ _ _).trans
    (congrArg (stage.connectInput previous >>= ·) (funext fun r => ?_))
  cases r with
  | error fault => exact bind_assoc _ _ _
  | ok =>
    refine (bind_assoc _ _ _).trans (congrArg (stage.connectOutput next >>= ·) (funext fun r => ?_))
    cases r with
    | error fault => rfl
    | ok => rfl

/-! ### The parts under a contract -/

section

variable {K : Contract γ} {g : γ} {stage : Stage} {previous next : Option Link}

theorem honours_release {link : Link} {Q : Unit → γ → Prop} (hread : K.may g (.close link.readEnd))
    (hwrite : ∀ g', K.gives g (.close link.readEnd) () g' →
      (act (.close link.writeEnd)).Honours K Q g') : link.release.Honours K Q g :=
  .bind (honours_act hread fun _ => hwrite)

theorem honours_releaseAny {link? : Option Link} {Q : Unit → γ → Prop} (hnone : Q () g)
    (hsome : ∀ link ∈ link?, link.release.Honours K Q g) :
    (Link.releaseAny link?).Honours K Q g := by
  cases link? with
  | none => exact hnone
  | some link => exact hsome link rfl

theorem honours_redirect {source target : Fd} {cleanUp : Program Unit}
    {Q : Except StageFault Unit → γ → Prop} (hmay : K.may g (.duplicate source target))
    (hclean : ∀ reply g', K.gives g (.duplicate source target) reply g' →
      cleanUp.Honours K (fun _ => Q (reply.mapError .notRedirected)) g') :
    (redirect source target cleanUp).Honours K Q g :=
  .bind (honours_ask hmay fun reply g' hgives => .bind (hclean reply g' hgives))

theorem honours_attachFile {file : String} {access : Access} {target : Fd}
    {Q : Except StageFault Unit → γ → Prop}
    (hzero : '\x00' ∈ file.toList → Q (.error (.zeroByteIn file)) g)
    (hmay : '\x00' ∉ file.toList → K.may g (.openFile (Bytes.ofString file) access))
    (hrefused : '\x00' ∉ file.toList → ∀ reason g', K.gives g (.openFile
      (Bytes.ofString file) access) (.error reason) g' → Q (.error (.notOpened file reason)) g')
    (hopened : '\x00' ∉ file.toList → ∀ fd g',
      K.gives g (.openFile (Bytes.ofString file) access) (.ok fd) g' →
      (redirect fd target (act (.close fd))).Honours K Q g') :
    (attachFile file access target).Honours K Q g := by
  unfold attachFile
  split
  · next hmem => exact hzero hmem
  · next hword =>
    refine .bind (honours_ask (hmay hword) fun reply g' hgives => ?_)
    cases reply with
    | error reason => exact hrefused hword reason g' hgives
    | ok fd => exact hopened hword fd g' hgives

theorem Connector.honours {x : Option Link → Step} {source : Link → Fd} {target : Fd}
    {file? : Option String} {access : Access} (hx : Connector x source target file? access)
    {link? : Option Link} {Q : Except StageFault Unit → γ → Prop}
    (hlink : ∀ link, link? = some link → (redirect (source link) target link.release).Honours K Q g)
    (hfile : link? = none →
      ∀ file, file? = some file → (attachFile file access target).Honours K Q g)
    (hneither : link? = none → file? = none → Q (.ok ()) g) : (x link?).Honours K Q g := by
  cases link? with
  | some link =>
    rw [hx.link]
    exact hlink link rfl
  | none =>
    cases file? with
    | some file =>
      rw [hx.file file rfl]
      exact hfile rfl file rfl
    | none =>
      rw [hx.neither rfl]
      exact hneither rfl rfl

theorem honours_runProgram {Q : StageFault → γ → Prop}
    (hempty : stage.arguments = [] → Q .emptyCommand g)
    (hexec : ∀ name rest, stage.arguments = name :: rest →
      K.may g (.exec (stage.arguments.map Bytes.ofString)) ∧
      ∀ reason g', K.gives g (.exec (stage.arguments.map Bytes.ofString)) reason g' →
      Q (.ofExec name reason) g') : stage.runProgram.Honours K Q g := by
  unfold runProgram
  split
  · next hnil => exact hempty hnil
  · next name rest harguments =>
    obtain ⟨hmay, hreason⟩ := hexec name rest harguments
    exact .bind (honours_ask hmay hreason)

theorem honours_giveUp {fault : StageFault} {Q : α → γ → Prop}
    (hmay : K.may g (.write Fd.complaints (Bytes.ofString ("minish: " ++ fault.message ++ "\n"))))
    (hexit : ∀ reply g', K.gives g (.write Fd.complaints (Bytes.ofString
      ("minish: " ++ fault.message ++ "\n"))) reply g' → K.may g' (.exit fault.code)) :
    (giveUp fault : Program α).Honours K Q g :=
  .bind (honours_act hmay fun reply g' hgives => honours_exit (hexit reply g' hgives))

/-- `I` tells what the connection of the input leaves, `O` that of the output, and `F` what there is
when the stage gives up. -/
theorem honours_process {I O : Except StageFault Unit → γ → Prop} {F : StageFault → γ → Prop}
    {Q : α → γ → Prop} (hinput : (stage.connectInput previous).Honours K I g)
    (habandon : ∀ fault g, I (.error fault) g →
      (Link.releaseAny next).Honours K (fun _ => F fault) g)
    (houtput : ∀ g, I (.ok ()) g → (stage.connectOutput next).Honours K O g)
    (hfault : ∀ fault g, O (.error fault) g → F fault g)
    (hrun : ∀ g, O (.ok ()) g → stage.runProgram.Honours K F g)
    (hgiveUp : ∀ fault g, F fault g → (giveUp fault : Program α).Honours K Q g) :
    (stage.process previous next : Program α).Honours K Q g := by
  rw [process_eq]
  refine .bind (hinput.mono fun r g hr => ?_)
  cases r with
  | error fault => exact .bind ((habandon fault g hr).mono fun _ => hgiveUp fault)
  | ok =>
    refine .bind ((houtput g hr).mono fun r g hr => ?_)
    cases r with
    | error fault => exact hgiveUp fault g (hfault fault g hr)
    | ok => exact .bind ((hrun g hr).mono hgiveUp)

end

/-! ### Courses of the parts -/

section

variable {past : List (Exchange α)} {result : Option α}

theorem course_redirect {source target : Fd}
    {cleanUp : Program Unit} {f : Except StageFault Unit → Program α}
    (h : Course (redirect source target cleanUp >>= f) past result) :
    result = none ∧ (past = [] ∨ past = [.called (.duplicate source target) none]) ∨
      ∃ reply rest, past = .called (.duplicate source target) (some reply) :: rest ∧
        Course (cleanUp >>= fun _ => f (reply.mapError .notRedirected)) rest result := by
  rcases Course.of_call h with ⟨rfl, rfl⟩ | ⟨rfl, rfl⟩ | ⟨reply, rest, rfl, hrest⟩
  · exact .inl ⟨rfl, .inl rfl⟩
  · exact .inl ⟨rfl, .inr rfl⟩
  · rw [resume_of_not_wait (by simp)] at hrest
    refine .inr ⟨reply, rest, rfl, ?_⟩
    have hassoc : (cleanUp >>= fun _ => pure (reply.mapError StageFault.notRedirected)) >>= f =
        cleanUp >>= fun _ => f (reply.mapError .notRedirected) := bind_assoc _ _ _
    rw [← hassoc]
    exact hrest

theorem course_attachFile {file : String} {access : Access}
    {target : Fd} {f : Except StageFault Unit → Program α}
    (hzero : '\x00' ∉ file.toList) (h : Course (attachFile file access target >>= f) past result) :
    result = none ∧ (past = [] ∨ past = [.called (.openFile (Bytes.ofString file) access) none]) ∨
      ∃ reply rest, past = .called (.openFile (Bytes.ofString file) access) (some reply) :: rest ∧
        Course (match reply with
          | .error reason => f (.error (.notOpened file reason))
          | .ok fd => redirect fd target (act (.close fd)) >>= f) rest result := by
  unfold attachFile at h
  rw [if_neg hzero] at h
  rcases Course.of_call h with ⟨rfl, rfl⟩ | ⟨rfl, rfl⟩ | ⟨reply, rest, rfl, hrest⟩
  · exact .inl ⟨rfl, .inl rfl⟩
  · exact .inl ⟨rfl, .inr rfl⟩
  · rw [resume_of_not_wait (by simp)] at hrest
    refine .inr ⟨reply, rest, rfl, ?_⟩
    cases reply with
    | error reason => exact hrest
    | ok fd => exact hrest

end

end Stage

end PipeShell
