import PipeShell.Proofs.Job.Heeding
import PipeShell.Proofs.System.Answers
import PipeShell.Proofs.System.Opening

/-!
How a stage gets ready. It connects its input, then its output, then looks whether there is a
program at all, and runs it; the first of these measures that fails is the last one that is taken,
and after a complaint about it the process ends. It never comes back into the interpreter, whatever
the system answers.
-/

set_option autoImplicit false
set_option relaxedAutoImplicit false

namespace PipeShell

open Program

variable {α : Type}

theorem prefix_of_first {β : Type} {front more earlier later : List β} {b : β}
    (h : earlier ++ b :: later <+: front ++ more) (hb : b ∉ front) : front <+: earlier := by
  rcases List.prefix_or_prefix_of_prefix (List.prefix_append front more)
    ((List.prefix_append _ _).trans h) with
    hfront | ⟨rest, rfl⟩
  · exact hfront
  · cases rest with
    | nil => exact ⟨[], by simp⟩
    | cons b' rest =>
      rw [List.append_assoc, List.prefix_append_right_inj] at h
      obtain ⟨rfl, -⟩ := List.cons_prefix_cons.mp h
      exact absurd (List.mem_append_right _ List.mem_cons_self) hb

namespace Stage

inductive Measure
  | input
  | output
  /-- Looking whether there is a program at all. -/
  | check
  | program
  deriving DecidableEq, Repr

def Measure.all : List Measure := [input, output, check, program]

/-- What the system answers to the calls of a stage: when the files are opened, when the input and
the output are redirected, and when the program is run, unless that works. -/
structure Verdicts where
  inputFile : Except Errno Fd
  input : Except Errno Unit
  outputFile : Except Errno Fd
  output : Except Errno Unit
  refusal? : Option Errno

namespace Verdicts

def gives (v : Verdicts) : Answers
  | .openFile _ .read, reply => reply = v.inputFile
  | .openFile _ _, reply => reply = v.outputFile
  | .duplicate _ target, reply => reply = if target = Fd.input then v.input else v.output
  | .exec _, reason => v.refusal? = some reason
  | _, _ => True

def redirection? : Except Errno Unit → Option StageFault
  | .ok () => none
  | .error reason => some (.notRedirected reason)

def connection? (link? : Option Link) (file? : Option String) (opened : Except Errno Fd)
    (redirected : Except Errno Unit) : Option StageFault :=
  match link?, file? with
  | some _, _ => redirection? redirected
  | none, none => none
  | none, some file =>
    if '\x00' ∈ file.toList then some (.zeroByteIn file)
    else match opened with
      | .error reason => some (.notOpened file reason)
      | .ok _ => redirection? redirected

def connecting (source? : Option (Fd × Link)) (file? : Option String) (access : Access)
    (target : Fd) (opened : Except Errno Fd) : List Call :=
  match source?, file? with
  | some (source, link), _ => [.duplicate source target, .close link.readEnd, .close link.writeEnd]
  | none, none => []
  | none, some file =>
    if '\x00' ∈ file.toList then []
    else .openFile (Bytes.ofString file) access :: match opened with
      | .error _ => []
      | .ok fd => [.duplicate fd target, .close fd]

variable (v : Verdicts) (stage : Stage) (previous next : Option Link)

def faultOf? : Measure → Option StageFault
  | .input => connection? previous stage.inputFile v.inputFile v.input
  | .output => connection? next stage.outputFile v.outputFile v.output
  | .check => if stage.arguments = [] then some .emptyCommand else none
  | .program => match stage.arguments, v.refusal? with
    | name :: _, some reason => some (.ofExec name reason)
    | _, _ => none

def callsOf : Measure → List Call
  | .input =>
    connecting (previous.map fun link => (link.readEnd, link)) stage.inputFile .read
      Fd.input v.inputFile
  | .output =>
    connecting (next.map fun link => (link.writeEnd, link)) stage.outputFile
      (.replace 0o644) Fd.output v.outputFile
  | .check => []
  | .program => [.exec (stage.arguments.map Bytes.ofString)]

def closing : Option Link → List Call
  | none => []
  | some link => [.close link.readEnd, .close link.writeEnd]

/-- The calls of the end of a stage in which a measure has failed. The pipe behind a stage is still
open when the input cannot be connected. -/
def givingUp (next : Option Link) (measure : Measure) (fault : StageFault) : List Call :=
  (if measure = .input then closing next else []) ++
    [.write Fd.complaints (Bytes.ofString ("minish: " ++ fault.message ++ "\n")), .exit fault.code]

/-- All calls of a stage: those of its measures, up to the first that fails, and then those of its
end. -/
inductive Doing : List Call → Prop
  | runs : (∀ measure, v.faultOf? stage previous next measure = none) →
      Doing (Measure.all.flatMap (v.callsOf stage previous next))
  | fails (before : List Measure) (measure : Measure) (after : List Measure) (fault : StageFault) :
      Measure.all = before ++ measure :: after →
      (∀ earlier ∈ before, v.faultOf? stage previous next earlier = none) →
      v.faultOf? stage previous next measure = some fault →
      Doing ((before ++ [measure]).flatMap (v.callsOf stage previous next) ++
        givingUp next measure fault)

end Verdicts

/-! ### The calls of each part -/

def outcome : Option StageFault → Except StageFault Unit
  | none => .ok ()
  | some fault => .error fault

section

variable {v : Verdicts} {stage : Stage} {previous next : Option Link}

theorem act_performs {c : Call} (reply : c.Reply) (hwait : ∀ pid, c ≠ .waitFor pid)
    (hreply : v.gives c reply) :
    (act c).Performs v.gives (some ()) [c] := performs_call hwait hreply fun _ _ => ⟨rfl, rfl⟩

theorem close_performs (v : Verdicts) (fd : Fd) :
    (act (.close fd)).Performs v.gives (some ()) [.close fd] :=
  act_performs () (by simp) trivial

theorem redirect_performs (source : Fd) {target : Fd} {cleanUp : Program Unit} {cs : List Call}
    (hclean : cleanUp.Performs v.gives (some ()) cs) {redirected : Except Errno Unit}
    (htarget : (if target = Fd.input then v.input else v.output) = redirected) :
    (redirect source target cleanUp).Performs v.gives (some (redirected.mapError .notRedirected))
      (.duplicate source target :: cs) := by
  subst htarget
  refine performs_call (by simp) rfl fun reply hreply => ?_
  obtain rfl : reply = _ := hreply
  rw [← List.append_nil cs]
  exact hclean.bind ⟨rfl, rfl⟩

theorem release_performs (v : Verdicts) (link : Link) :
    link.release.Performs v.gives (some ()) [.close link.readEnd, .close link.writeEnd] :=
  (close_performs v link.readEnd).bind (close_performs v link.writeEnd)

theorem Connector.performs {x : Option Link → Step} {source : Link → Fd} {target : Fd}
    {file? : Option String} {access : Access} (h : Connector x source target file? access)
    {opened : Except Errno Fd} {redirected : Except Errno Unit}
    (hopened : ∀ path reply, v.gives (.openFile path access) reply ↔ reply = opened)
    (htarget : (if target = Fd.input then v.input else v.output) = redirected)
    (link? : Option Link) :
    (x link?).Performs v.gives (some (outcome (Verdicts.connection? link? file? opened redirected)))
      (Verdicts.connecting (link?.map fun link => (source link,
        link)) file? access target opened) := by
  cases link? with
  | some link =>
    rw [h.link]
    have hredirect := redirect_performs (source link) (release_performs v link) htarget
    cases redirected <;> exact hredirect
  | none =>
    cases file? with
    | none =>
      rw [h.neither rfl]
      exact ⟨rfl, rfl⟩
    | some file =>
      rw [h.file file rfl, attachFile]
      by_cases hzero : '\x00' ∈ file.toList
      · simp only [Verdicts.connection?, Verdicts.connecting, Option.map_none, if_pos hzero]
        exact ⟨rfl, rfl⟩
      · simp only [Verdicts.connection?, Verdicts.connecting, Option.map_none, if_neg hzero]
        refine performs_call (by simp) ((hopened _ _).mpr rfl) fun reply hreply => ?_
        obtain rfl := (hopened _ _).mp hreply
        cases reply with
        | error reason => exact ⟨rfl, rfl⟩
        | ok fd =>
          have hredirect := redirect_performs fd (close_performs v fd) htarget
          cases redirected <;> exact hredirect

theorem connectInput_performs (v : Verdicts) (stage : Stage) (previous next : Option Link) :
    (stage.connectInput previous).Performs v.gives
      (some (outcome (v.faultOf? stage previous next .input)))
      (v.callsOf stage previous next .input) :=
  (connectInput_connector stage).performs (fun _ _ => Iff.rfl) rfl previous

theorem connectOutput_performs (v : Verdicts) (stage : Stage) (previous next : Option Link) :
    (stage.connectOutput next).Performs v.gives
      (some (outcome (v.faultOf? stage previous next .output)))
      (v.callsOf stage previous next .output) :=
  (connectOutput_connector stage).performs (fun _ _ => Iff.rfl) rfl next

theorem giveUp_performs (v : Verdicts) (fault : StageFault) :
    (giveUp fault : Program α).Performs v.gives none [.write Fd.complaints
      (Bytes.ofString ("minish: " ++ fault.message ++ "\n")), .exit fault.code] :=
  Performs.bind (act_performs (c := .write ..) (.ok ()) (by simp) trivial)
    (performs_last (by simp) fun reply => reply.elim)

theorem releaseAny_performs (v : Verdicts) (link? : Option Link) :
    (Link.releaseAny link?).Performs v.gives (some ()) (Verdicts.closing link?) := by
  cases link? with
  | none => exact ⟨rfl, rfl⟩
  | some link => exact release_performs v link

/-- What a stage does under some verdicts. -/
theorem process_performs (v : Verdicts) (stage : Stage) (previous next : Option Link) :
    ∃ cs, v.Doing stage previous next cs ∧
      (stage.process previous next : Program α).Performs v.gives none cs := by
  rw [process_eq]
  have hinput := connectInput_performs v stage previous next
  have houtput := connectOutput_performs v stage previous next
  cases hfirst : v.faultOf? stage previous next .input with
  | some fault =>
    rw [hfirst] at hinput
    refine ⟨_, .fails [] .input [.output, .check, .program] fault rfl (by simp) hfirst, ?_⟩
    simpa [Verdicts.givingUp]
      using hinput.bind ((releaseAny_performs v next).bind (giveUp_performs v fault))
  | none =>
    rw [hfirst] at hinput
    cases hsecond : v.faultOf? stage previous next .output with
    | some fault =>
      rw [hsecond] at houtput
      refine ⟨_, .fails [.input] .output [.check, .program] fault rfl (by simp [hfirst]) hsecond,
        ?_⟩
      simpa [Verdicts.givingUp] using hinput.bind (houtput.bind (giveUp_performs v fault))
    | none =>
      rw [hsecond] at houtput
      cases harguments : stage.arguments with
      | nil =>
        have hrun : stage.runProgram = pure .emptyCommand := by simp only [runProgram, harguments]
        have hcheck : v.faultOf? stage previous next .check =
            some .emptyCommand := if_pos harguments
        refine ⟨_, .fails [.input, .output] .check [.program] _ rfl
          (by simp [hfirst, hsecond]) hcheck, ?_⟩
        rw [hrun]
        simpa [Verdicts.callsOf, Verdicts.givingUp]
          using hinput.bind (houtput.bind (giveUp_performs v .emptyCommand))
      | cons name others =>
        have hrun : stage.runProgram =
            .call (.exec (stage.arguments.map Bytes.ofString)) fun reason =>
            pure (.ofExec name reason) := by
          rw [runProgram]
          simp only [harguments]
          rfl
        have hcheck : v.faultOf? stage previous next .check = none := if_neg (by simp [harguments])
        rw [hrun]
        cases hrefusal : v.refusal? with
        | none =>
          have hprogram : v.faultOf? stage previous next .program = none := by
            simp only [Verdicts.faultOf?, harguments, hrefusal]
          have hexec : (Program.call (.exec (stage.arguments.map Bytes.ofString)) fun reason =>
              (pure (.ofExec name reason) : Program StageFault)).Performs v.gives none
              [.exec (stage.arguments.map Bytes.ofString)] :=
            performs_last (by simp) fun reply hreply => by cases hrefusal.symm.trans hreply
          refine ⟨_, .runs (by rintro (_ | _ | _ | _) <;> assumption), ?_⟩
          simpa [Measure.all, Verdicts.callsOf] using
            hinput.bind (houtput.bind (hexec.bind_none (f := giveUp)))
        | some reason =>
          have hprogram : v.faultOf? stage previous next .program = some (.ofExec name reason) := by
            simp only [Verdicts.faultOf?, harguments, hrefusal]
          have hexec : (Program.call (.exec (stage.arguments.map Bytes.ofString)) fun reason =>
              (pure (.ofExec name reason) : Program StageFault)).Performs v.gives (some
                (.ofExec name reason))
              [.exec (stage.arguments.map Bytes.ofString)] := by
            refine performs_call (by simp) hrefusal fun reason' hreply => ?_
            cases hrefusal.symm.trans hreply
            exact ⟨rfl, rfl⟩
          refine ⟨_, .fails [.input, .output,
            .check] .program [] _ rfl (by simp [hfirst, hsecond, hcheck]) hprogram, ?_⟩
          simpa [Verdicts.callsOf, Verdicts.givingUp]
            using hinput.bind (houtput.bind (hexec.bind (giveUp_performs v _)))

end

/-! ### What can be answered at all -/

variable {past : List (Exchange α)} {result : Option α}

def Indifferent (c : Call) : Prop := ∀ (v : Verdicts) (reply : c.Reply), v.gives c reply

theorem accord_of_indifferent {x : Program α} {forks : Prop} {Q : α → Prop}
    (hx : x.Confined Indifferent forks Q) (h : Course x past result) (v : Verdicts) :
    v.gives.Accord past :=
  fun c reply hmem => (h.of_confined hx).1 c (some reply) hmem v reply

theorem accord_cons {gives : Answers} {c : Call} {reply : c.Reply} (hreply : gives c reply)
    (h : gives.Accord past) : gives.Accord (.called c (some reply) :: past) := by
  intro c' reply' hmem
  rcases List.mem_cons.mp hmem with heq | hmem
  · cases heq
    exact hreply
  · exact h c' reply' hmem

theorem accord_append {β : Type} {gives : Answers} {f : β → Program α} {before : List (Exchange β)}
    (hbefore : gives.Accord before) (h : gives.Accord past) :
    gives.Accord (before.map (Exchange.andThen f) ++ past) := by
  intro c reply hmem
  rcases List.mem_append.mp hmem with hmem | hmem
  · exact hbefore c reply (called_mem_andThen.mp hmem)
  · exact h c reply hmem

theorem accord_unanswered (gives : Answers) (c : Call) :
    gives.Accord ([.called c none] : List (Exchange α)) := by
  intro c' reply hmem
  cases List.mem_singleton.mp hmem

theorem accord_nil (gives : Answers) : gives.Accord ([] : List (Exchange α)) :=
  fun _ _ hmem => absurd hmem List.not_mem_nil

section

variable {past : List (Exchange (Except StageFault Unit))}
  {result : Option (Except StageFault Unit)}

theorem redirect_accords {source target : Fd} {cleanUp : Program Unit}
    (hclean : cleanUp.Confined Indifferent False fun _ => True)
    (h : Course (redirect source target cleanUp) past result) :
    ∃ redirected, ∀ v : Verdicts, (if target = Fd.input then v.input else v.output) = redirected →
      v.gives.Accord past := by
  rw [← bind_done (redirect source target cleanUp)] at h
  rcases course_redirect h with ⟨-, rfl | rfl⟩ | ⟨reply, rest, rfl, hrest⟩
  · exact ⟨.ok (), fun v _ => accord_nil _⟩
  · exact ⟨.ok (), fun v _ => accord_unanswered _ _⟩
  · have hconfined : (cleanUp >>= fun _ => .done (reply.mapError StageFault.notRedirected)).Confined
        Indifferent False fun _ => True := .bind (hclean.imp fun _ _ => trivial)
    exact ⟨reply, fun v hv => accord_cons hv.symm (accord_of_indifferent hconfined hrest v)⟩

theorem close_indifferent (fd : Fd) : (act (.close fd)).Confined Indifferent False fun _ => True :=
  confined_act (fun _ _ => trivial) trivial

theorem release_indifferent (link : Link) : link.release.Confined Indifferent False fun _ => True :=
  link.release_confined fun _ _ _ => trivial

theorem Connector.accords {x : Option Link → Step} {source : Link → Fd} {target : Fd}
    {file? : Option String} {access : Access} (hx : Connector x source target file? access)
    {link? : Option Link} (h : Course (x link?) past result) :
    ∃ opened redirected, ∀ v : Verdicts, (∀ path, v.gives (.openFile path access) opened) →
      (if target = Fd.input then v.input else v.output) = redirected → v.gives.Accord past := by
  cases link? with
  | some link =>
    rw [hx.link] at h
    obtain ⟨redirected, haccord⟩ := redirect_accords (release_indifferent link) h
    exact ⟨.ok 0, redirected, fun v _ hv => haccord v hv⟩
  | none =>
    cases file? with
    | none =>
      rw [hx.neither rfl] at h
      obtain ⟨rfl, -⟩ := h.of_done
      exact ⟨.ok 0, .ok (), fun v _ _ => accord_nil _⟩
    | some file =>
      rw [hx.file file rfl] at h
      by_cases hzero : '\x00' ∈ file.toList
      · rw [attachFile, if_pos hzero] at h
        obtain ⟨rfl, -⟩ := h.of_done
        exact ⟨.ok 0, .ok (), fun v _ _ => accord_nil _⟩
      · rw [← bind_done (attachFile file access target)] at h
        rcases course_attachFile hzero h with ⟨-, rfl | rfl⟩ | ⟨reply, rest, rfl, hrest⟩
        · exact ⟨.ok 0, .ok (), fun v _ _ => accord_nil _⟩
        · exact ⟨.ok 0, .ok (), fun v _ _ => accord_unanswered _ _⟩
        · cases reply with
          | error reason =>
            obtain ⟨rfl, -⟩ := Course.of_done hrest
            exact ⟨.error reason, .ok (), fun v hopened _ => accord_cons (hopened _) (accord_nil _)⟩
          | ok fd =>
            dsimp only at hrest
            rw [bind_done] at hrest
            obtain ⟨redirected, haccord⟩ := redirect_accords (close_indifferent fd) hrest
            exact ⟨.ok fd, redirected, fun v hopened hv => accord_cons (hopened _) (haccord v hv)⟩

end

theorem giveUp_indifferent (fault : StageFault) :
    (giveUp fault : Program α).Confined Indifferent False fun _ => True :=
  ⟨fun _ _ => trivial, fun _ => ⟨fun _ reply => reply.elim, fun reply => reply.elim⟩⟩

theorem giveUp_accords {fault : StageFault} (h : Course (giveUp fault : Program α) past result)
    (v : Verdicts) : v.gives.Accord past := accord_of_indifferent (giveUp_indifferent fault) h v

theorem abandon_accords {next : Option Link} {fault : StageFault}
    (h : Course (Link.releaseAny next >>= fun _ => giveUp fault : Program α) past result)
    (v : Verdicts) :
    v.gives.Accord past := by
  cases next with
  | none => exact giveUp_accords h v
  | some link =>
    exact accord_of_indifferent
      (.bind ((release_indifferent link).imp fun _ _ => giveUp_indifferent fault)) h v

theorem runProgram_accords {stage : Stage}
    (h : Course (stage.runProgram >>= giveUp : Program α) past result) :
    ∃ refusal?, ∀ v : Verdicts, v.refusal? = refusal? → v.gives.Accord past := by
  unfold runProgram at h
  split at h
  · exact ⟨none, fun v _ => giveUp_accords h v⟩
  · rcases Course.of_call h with ⟨rfl, -⟩ | ⟨rfl, -⟩ | ⟨reason, rest, rfl, hrest⟩
    · exact ⟨none, fun v _ => accord_nil _⟩
    · exact ⟨none, fun v _ => accord_unanswered _ _⟩
    · rw [resume_of_not_wait (by simp)] at hrest
      exact ⟨some reason, fun v hv => accord_cons hv (giveUp_accords hrest v)⟩

/-- Whatever is answered to a stage can be told by verdicts, since it is asked only once about each
thing. -/
theorem exists_verdicts {stage : Stage} {previous next : Option Link}
    (h : Course (stage.process previous next : Program α) past result) :
    ∃ v : Verdicts, v.gives.Accord past := by
  rw [process_eq] at h
  rcases h.of_bind with ⟨before, rfl, hbefore, rfl⟩ | ⟨before, after, r, rfl, hbefore, hafter⟩
  · obtain ⟨opened, redirected, haccord⟩ := (connectInput_connector stage).accords hbefore
    refine ⟨⟨opened, redirected, .ok 0, .ok (), none⟩, ?_⟩
    rw [← List.append_nil (before.map _)]
    exact accord_append (haccord _ (fun _ => rfl) rfl) (accord_nil _)
  · obtain ⟨opened, redirected, haccord⟩ := (connectInput_connector stage).accords hbefore
    cases r with
    | error fault =>
      refine ⟨⟨opened, redirected, .ok 0, .ok (), none⟩, ?_⟩
      exact accord_append (haccord _ (fun _ => rfl) rfl) (abandon_accords hafter _)
    | ok =>
      rcases hafter.of_bind with ⟨before', rfl, hbefore', rfl⟩ | ⟨before', after', r, rfl,
        hbefore', hafter'⟩
      · obtain ⟨opened', redirected', haccord'⟩ := (connectOutput_connector stage).accords hbefore'
        refine ⟨⟨opened, redirected, opened', redirected', none⟩,
          accord_append (haccord _ (fun _ => rfl) rfl) ?_⟩
        rw [← List.append_nil (before'.map _)]
        exact accord_append (haccord' _ (fun _ => rfl) rfl) (accord_nil _)
      · obtain ⟨opened', redirected', haccord'⟩ := (connectOutput_connector stage).accords hbefore'
        cases r with
        | error fault =>
          refine ⟨⟨opened, redirected, opened', redirected', none⟩,
            accord_append (haccord _ (fun _ => rfl) rfl) ?_⟩
          exact accord_append (haccord' _ (fun _ => rfl) rfl) (giveUp_accords hafter' _)
        | ok =>
          obtain ⟨refusal?, hrun⟩ := runProgram_accords hafter'
          refine ⟨⟨opened, redirected, opened', redirected', refusal?⟩,
            accord_append (haccord _ (fun _ => rfl) rfl) ?_⟩
          exact accord_append (haccord' _ (fun _ => rfl) rfl) (hrun _ rfl)

/-! ### The file for the output -/

namespace Verdicts

variable {v : Verdicts} {stage : Stage} {previous next : Option Link}

theorem mem_connecting {source? : Option (Fd × Link)}
    {file? : Option String} {access : Access} {target : Fd}
    {opened : Except Errno Fd} {c : Call} (h : c ∈ connecting source? file? access target opened) :
    (∃ source, c = .duplicate source target) ∨ (∃ fd, c = .close fd) ∨
    ∃ path, c = .openFile path access := by
  unfold connecting at h
  split at h
  · simp only [List.mem_cons, List.not_mem_nil, or_false] at h
    rcases h with rfl | rfl | rfl
    · exact .inl ⟨_, rfl⟩
    · exact .inr (.inl ⟨_, rfl⟩)
    · exact .inr (.inl ⟨_, rfl⟩)
  · cases h
  · split at h
    · cases h
    · rcases List.mem_cons.mp h with rfl | h
      · exact .inr (.inr ⟨_, rfl⟩)
      · split at h
        · cases h
        · rcases List.mem_pair.mp h with rfl | rfl
          · exact .inl ⟨_, rfl⟩
          · exact .inr (.inl ⟨_, rfl⟩)

theorem connects_of_mem_connecting {source? : Option (Fd × Link)} {file? : Option String}
    {access : Access} {target : Fd} {opened : Except Errno Fd} {c : Call}
    (h : c ∈ connecting source? file? access target opened) : c.Connects := by
  rcases mem_connecting h with ⟨_, rfl⟩ | ⟨_, rfl⟩ | ⟨_, rfl⟩ <;> trivial

theorem prepares_of_mem_callsOf {measure : Measure} {c : Call}
    (h : c ∈ v.callsOf stage previous next measure) : c.Prepares := by
  cases measure with
  | input => exact .inl (connects_of_mem_connecting h)
  | output => exact .inl (connects_of_mem_connecting h)
  | check => cases h
  | program =>
    rw [List.mem_singleton.mp h]
    exact .inr ⟨_, rfl⟩

theorem Doing.of_first_fault {cs : List Call}
    (h : v.Doing stage previous next cs) {before after : List Measure}
    {measure : Measure} {fault : StageFault} (heq : Measure.all = before ++ measure :: after)
    (hbefore : ∀ earlier ∈ before, v.faultOf? stage previous next earlier = none)
    (hfault : v.faultOf? stage previous next measure = some fault) :
    cs = (before ++ [measure]).flatMap (v.callsOf stage previous next) ++
      givingUp next measure fault := by
  cases h with
  | runs hnone => cases (hnone measure).symm.trans hfault
  | fails before' measure' after' fault' heq' hbefore' hfault' =>
    -- neither of the two can come before the other
    have hnot {l : List Measure} {m : Measure} {f : StageFault}
        (hl : ∀ earlier ∈ l, v.faultOf? stage previous next earlier = none)
        (hm : v.faultOf? stage previous next m = some f) : m ∉ l :=
      fun hmem => by cases (hl m hmem).symm.trans hm
    have hsame := heq.symm.trans heq'
    have hfirst : before' <+: before :=
      prefix_of_first ⟨[], by simpa using hsame⟩ (hnot hbefore' hfault)
    have hsecond : before <+: before' :=
      prefix_of_first ⟨[], by simpa using hsame.symm⟩ (hnot hbefore hfault')
    obtain rfl : before = before' := hsecond.eq_of_length_le hfirst.length_le
    obtain ⟨rfl, -⟩ := List.cons.inj (List.append_cancel_left hsame)
    cases hfault.symm.trans hfault'
    rfl

theorem Doing.of_connected {cs : List Call} (h : v.Doing stage previous next cs)
    (hinput : v.faultOf? stage previous next .input = none)
    (houtput : v.faultOf? stage previous next .output = none) :
    ∃ more, cs = (v.callsOf stage previous next .input ++ v.callsOf stage previous next .output) ++
      more := by
  cases h with
  | runs hnone => exact ⟨_, (List.append_assoc ..).symm⟩
  | fails before measure after fault heq hbefore hfault =>
    match before with
    | [] =>
      obtain ⟨rfl, -⟩ := List.cons.inj heq
      cases hinput.symm.trans hfault
    | [first] =>
      obtain ⟨-, htail⟩ := List.cons.inj heq
      obtain ⟨rfl, -⟩ := List.cons.inj htail
      cases houtput.symm.trans hfault
    | first :: second :: before =>
      obtain ⟨rfl, htail⟩ := List.cons.inj heq
      obtain ⟨rfl, -⟩ := List.cons.inj htail
      exact ⟨(before ++ [measure]).flatMap (v.callsOf stage previous next) ++
        givingUp next measure fault, by simp⟩

theorem opened_of_connected {file : String} (hfile : stage.outputFile = some file)
    (houtput : v.faultOf? stage previous none .output = none) : (∃ fd, v.outputFile = .ok fd) ∧
      .openFile (Bytes.ofString file) (.replace 0o644) ∈ v.callsOf stage previous none .output := by
  simp only [faultOf?, connection?, hfile] at houtput
  split at houtput
  · cases houtput
  · rename_i hzero
    split at houtput
    · cases houtput
    · rename_i fd hopened
      refine ⟨⟨fd, hopened⟩, ?_⟩
      simp only [callsOf, connecting, hfile, Option.map_none, if_neg hzero]
      exact List.mem_cons_self

theorem code_of_redirection {redirected : Except Errno Unit} {fault : StageFault}
    (h : redirection? redirected = some fault) : fault.code = 1 := by
  cases redirected <;> cases h
  rfl

theorem code_of_connection {link? : Option Link} {file? : Option String} {opened : Except Errno Fd}
    {redirected : Except Errno Unit} {fault : StageFault}
    (h : connection? link? file? opened redirected = some fault) :
    fault.code = 1 := by
  unfold connection? at h
  split at h
  · exact code_of_redirection h
  · cases h
  · split at h
    · cases h
      rfl
    · split at h
      · cases h
        rfl
      · exact code_of_redirection h

theorem code_of_faultOf {measure : Measure} {fault : StageFault}
    (h : v.faultOf? stage previous next measure = some fault) :
    fault.code = if measure = .program then if v.refusal? = some .noEntry then 127
    else 126 else 1 := by
  cases measure with
  | input => exact code_of_connection h
  | output => exact code_of_connection h
  | check =>
    simp only [faultOf?] at h
    split at h
    · cases h
      rfl
    · cases h
  | program =>
    simp only [faultOf?] at h
    split at h
    · rename_i reason _ hrefusal
      cases h
      rw [hrefusal, if_pos rfl]
      cases reason <;> rfl
    · cases h

theorem spares_of_mem_connecting {source? : Option (Fd × Link)}
    {file? : Option String} {access : Access} {target : Fd}
    {opened : Except Errno Fd} {c : Call} (h : c ∈ connecting source? file? access target opened) :
    Machine.SparesFiles c ∨ ∃ path, c = .openFile path access := by
  rcases mem_connecting h with ⟨_, rfl⟩ | ⟨_, rfl⟩ | hopen
  · exact .inl trivial
  · exact .inl trivial
  · exact .inr hopen

theorem spares_of_mem_callsOf {measure : Measure} {c : Call}
    (h : c ∈ v.callsOf stage previous next measure) :
    Machine.SparesFiles c ∨ measure = .output ∧ ∃ path, c = .openFile path (.replace 0o644) := by
  cases measure with
  | input =>
    rcases spares_of_mem_connecting h with hspares | ⟨path, rfl⟩
    · exact .inl hspares
    · exact .inl trivial
  | output => exact (spares_of_mem_connecting h).imp_right fun hopen => ⟨rfl, hopen⟩
  | check => cases h
  | program =>
    rw [List.mem_singleton.mp h]
    exact .inl trivial

theorem spares_of_mem_givingUp {measure : Measure} {fault : StageFault} {c : Call}
    (h : c ∈ givingUp next measure fault) :
    Machine.SparesFiles c ∨ ∃ data, c = .write Fd.complaints data := by
  rcases List.mem_append.mp h with hclosing | hending
  · obtain ⟨fd, rfl⟩ : ∃ fd, c = .close fd := by
      cases next with
      | none => split at hclosing <;> cases hclosing
      | some link =>
        split at hclosing
        · rcases List.mem_pair.mp hclosing with rfl | rfl <;> exact ⟨_, rfl⟩
        · cases hclosing
    exact .inl trivial
  · rcases List.mem_pair.mp hending with rfl | rfl
    · exact .inr ⟨_, rfl⟩
    · exact .inl trivial

end Verdicts

/-! ### Stages as a whole -/

variable {stage : Stage} {previous next : Option Link} {v : Verdicts}

theorem replaced_before {file : String} (hfile : stage.outputFile = some file)
    (hinput : v.faultOf? stage previous none .input = none)
    (houtput : v.faultOf? stage previous none .output = none)
    {earlier later : List (Exchange α)} {c : Call} {reply? : Option c.Reply}
    (h : Course (stage.process previous none : Program α)
      (earlier ++ .called c reply? :: later) result)
    (haccord : v.gives.Accord (earlier ++ .called c reply? :: later)) (hc : ¬ c.Connects) :
    ∃ fd, .called (.openFile (Bytes.ofString file) (.replace 0o644)) (some (.ok fd)) ∈ earlier := by
  obtain ⟨cs, hdoing, hperforms⟩ := process_performs (α := α) v stage previous none
  obtain ⟨hfront, -⟩ := hperforms.of_course h haccord
  obtain ⟨more, rfl⟩ := hdoing.of_connected hinput houtput
  obtain ⟨⟨fd, hfd⟩, hopen⟩ := Verdicts.opened_of_connected hfile houtput
  have hconnecting :
      c ∉ v.callsOf stage previous none .input ++ v.callsOf stage previous none .output := by
    intro hmem
    rcases List.mem_append.mp hmem with hmem | hmem <;>
      exact hc (Verdicts.connects_of_mem_connecting hmem)
  rw [calls_append] at hfront
  have hbefore := prefix_of_first hfront hconnecting
  obtain ⟨exchange, hmem, hcall⟩ :=
    List.mem_filterMap.mp (hbefore.subset (List.mem_append_right _ hopen))
  cases exchange with
  | forked | transferred | flooded => cases hcall
  | called c' reply?' =>
    obtain rfl : c' = .openFile (Bytes.ofString file) (.replace 0o644) := Option.some.inj hcall
    cases reply?' with
    | none => exact absurd hmem (h.answered_before rfl)
    | some reply =>
      obtain rfl : reply = .ok fd := (haccord _ reply (List.mem_append_left _ hmem)).trans hfd
      exact ⟨fd, hmem⟩

theorem process_never_returns (h : Course (stage.process previous next : Program α) past result) :
    result = none := by
  have hconfined :
      (stage.process previous next : Program α).Confined (fun _ => True) False fun _ => False :=
    .bind ((stage.firstFault_prepares previous next).mono (fun _ _ => trivial) id fun _ _ =>
      ⟨trivial, fun _ => ⟨trivial, fun reply => reply.elim⟩⟩)
  cases result with
  | none => rfl
  | some a => exact ((h.of_confined hconfined).2.2 a rfl).elim

/-- What a stage does in all, if that is answered by some verdicts. -/
structure Prepared (α : Type) (v : Verdicts) (stage : Stage) (previous next : Option Link)
    (cs : List Call) : Prop where
  doing : v.Doing stage previous next cs
  /-- All these calls can be made. -/
  made : ∃ past : List (Exchange α), Course (stage.process previous next) past none ∧
    v.gives.Accord past ∧ calls past = cs
  /-- There are no others. -/
  only : ∀ (past : List (Exchange α)) (result : Option α),
    Course (stage.process previous next) past result → v.gives.Accord past → calls past <+: cs
  /-- No measure complains or ends the process. -/
  quiet : ∀ measure, ∀ c ∈ v.callsOf stage previous next measure, c.Prepares
  code : ∀ measure fault, v.faultOf? stage previous next measure = some fault →
    fault.code = if measure = .program then if v.refusal? = some .noEntry then 127 else 126 else 1
  /-- If the input cannot be connected, no file is touched. -/
  untouched : ∀ fault, v.faultOf? stage previous next .input = some fault →
    ∀ c ∈ cs, Machine.SparesFiles c ∨ ∃ data, c = .write Fd.complaints data
  /-- If there is no pipe behind the stage and both descriptors are connected, the file for the
  output has been opened to be replaced before the program is run, and before there is a
  complaint. -/
  replaced : ∀ file, next = none → stage.outputFile = some file →
    v.faultOf? stage previous next .input = none → v.faultOf? stage previous next .output = none →
    ∀ (past : List (Exchange α)) (result : Option α),
      Course (stage.process previous next) past result → v.gives.Accord past →
      ∀ earlier c reply? later, past = earlier ++ .called c reply? :: later → ¬ c.Connects →
        ∃ fd, .called (.openFile (Bytes.ofString file) (.replace 0o644)) (some (.ok fd)) ∈ earlier

theorem exists_prepared (α : Type) (v : Verdicts) (stage : Stage) (previous next : Option Link) :
    ∃ cs, Prepared α v stage previous next cs := by
  obtain ⟨cs, hdoing, hperforms⟩ := process_performs (α := α) v stage previous next
  refine ⟨cs, hdoing, hperforms.exists_course, fun past result hcourse haccord => ?_, fun _ _ => ?_,
    fun _ _ => ?_, ?_, ?_⟩
  · exact (hperforms.of_course hcourse haccord).1
  · exact Verdicts.prepares_of_mem_callsOf
  · exact Verdicts.code_of_faultOf
  · intro fault hfault c hc
    have hall : Measure.all = [] ++ .input :: [.output, .check, .program] := rfl
    rw [hdoing.of_first_fault hall (by simp) hfault] at hc
    rcases List.mem_append.mp hc with hc | hc
    · have hc : c ∈ v.callsOf stage previous next .input := by simpa using hc
      rcases Verdicts.spares_of_mem_callsOf hc with hspares | ⟨houtput, -⟩
      · exact .inl hspares
      · cases houtput
    · exact Verdicts.spares_of_mem_givingUp hc
  · rintro file rfl hfile hinput houtput past result hcourse haccord earlier c reply? later rfl hc
    exact replaced_before hfile hinput houtput hcourse haccord hc

/-- A stage takes its measures in their order up to the first that fails; then it complains once and
ends with a code for what went wrong, and whatever happens, it never comes back into the
interpreter. On a machine no file is touched unless the one for the output is opened, and then that
file is there and empty. -/
theorem process_stops_at_first_fault (stage : Stage) (previous next : Option Link) :
    (∀ (past : List (Exchange α)) (result : Option α),
      Course (stage.process previous next) past result →
      result = none ∧ ∃ v : Verdicts, v.gives.Accord past) ∧
    (∀ v : Verdicts, ∃ cs, Prepared α v stage previous next cs) ∧
    ∀ (m : Machine α) (pid : Pid) (p : Process α),
      (∀ c, Machine.SparesFiles c → (m.answer pid p c).Keeps fun m' => m'.tree = m.tree) ∧
      (p.rendezvous? = none → ∀ path mode m',
        (∀ reason, m.answer pid p (.openFile path (.replace mode)) = .answer (.error reason) m' →
          m'.tree = m.tree) ∧
        ∀ fd, m.answer pid p (.openFile path (.replace mode)) = .answer (.ok fd) m' →
          ∃ id, m.tree.openForWriting (m.actor p) path mode true = .ok (m'.tree, id) ∧
            ((m'.tree.node id).content = .file [] ∨
              m'.tree = m.tree ∧ ∀ data, (m.tree.node id).content ≠ .file data)) := by
  refine ⟨fun past result hcourse => ⟨process_never_returns hcourse, exists_verdicts hcourse⟩,
    fun v => exists_prepared α v stage previous next,
    fun m pid p => ⟨fun c hc => m.answer_spares_files hc pid p, ?_⟩⟩
  intro hcalm path mode m'
  obtain ⟨herror, hok⟩ := Machine.openPath_replaces (m := m) hcalm pid path mode
  refine ⟨fun reason => herror reason m', fun fd hopen => ?_⟩
  obtain ⟨id, hwriting⟩ := hok fd m' hopen
  exact ⟨id, hwriting, FileTree.openForWriting_replaces hwriting⟩

private def copying : Stage := ⟨["cp"], some "from", some "to"⟩

private def missing : Verdicts := ⟨.error .noEntry, .ok (), .ok 3, .ok (), none⟩

private def unknown : Verdicts := ⟨.ok 3, .ok (), .ok 4, .ok (), some .noEntry⟩

/-- Where the file for the input is missing, the one for the output is not touched. Where the
program is missing, it has been replaced. -/
theorem process_stops_with_missing_file :
    (∃ past : List (Exchange Unit), Course (copying.process none none) past none ∧
      calls past = [.openFile (Bytes.ofString "from") .read,
        .write Fd.complaints (Bytes.ofString
          ("minish: " ++ (StageFault.notOpened "from" .noEntry).message ++ "\n")),
        .exit 1]) ∧
    ∃ past : List (Exchange Unit), Course (copying.process none none) past none ∧
      calls past = [.openFile (Bytes.ofString "from") .read, .duplicate 3 Fd.input, .close 3,
        .openFile (Bytes.ofString "to") (.replace 0o644), .duplicate 4 Fd.output,
        .close 4, .exec [Bytes.ofString "cp"], .write Fd.complaints (Bytes.ofString
          ("minish: " ++ (StageFault.notFound "cp").message ++ "\n")), .exit 127] := by
  obtain ⟨-, hall, -⟩ := process_stops_at_first_fault (α := Unit) copying none none
  constructor
  · obtain ⟨cs, hprepared⟩ := hall missing
    obtain ⟨past, hcourse, -, rfl⟩ := hprepared.made
    have hfault : missing.faultOf? copying none none .input =
        some (.notOpened "from" .noEntry) := by
      simp [Verdicts.faultOf?, Verdicts.connection?, copying, missing]
    have hmeasures : Measure.all = [] ++ .input :: [.output, .check, .program] := rfl
    refine ⟨past, hcourse, (hprepared.doing.of_first_fault hmeasures (by simp) hfault).trans ?_⟩
    simp [Verdicts.callsOf, Verdicts.connecting, Verdicts.givingUp, Verdicts.closing, copying,
      missing, StageFault.code]
  · obtain ⟨cs, hprepared⟩ := hall unknown
    obtain ⟨past, hcourse, -, rfl⟩ := hprepared.made
    have hbefore : ∀ measure ∈ [Measure.input, .output, .check],
        unknown.faultOf? copying none none measure = none := by
      simp [Verdicts.faultOf?, Verdicts.connection?, Verdicts.redirection?, copying, unknown]
    refine ⟨past, hcourse, (hprepared.doing.of_first_fault rfl hbefore rfl).trans ?_⟩
    simp [Verdicts.callsOf, Verdicts.connecting, Verdicts.givingUp, copying, unknown,
      StageFault.code, StageFault.ofExec]

end Stage

end PipeShell
