import PipeShell.Proofs.Line.Layout
import PipeShell.Proofs.Session.Faithful
import PipeShell.Proofs.Session.Status

/-!
Sessions of a single line. The code with which such a session ends is the status of the line, which
no byte is too small for, and it is 0 only if the line has succeeded.
-/

set_option autoImplicit false
set_option relaxedAutoImplicit false

namespace PipeShell

open Program

variable {σ : Type}

/-- A host that carries out actions as the interpreter does, with a record of what is exchanged with
the system. -/
structure Host.Records (h : Host σ) (background : σ → Background)
    (record : Action → σ → List (Exchange Outcome)) : Prop where
  performs : ∀ action s, ∃ result, Course (action.execute (background s)) (record action s) result ∧
    Tells (record action s) result (background s) (background (h.perform action s).2)
      (h.perform action s).1
  bytes : ∀ action s, Action.BytesReported (record action s)

def Performed.lineStatus : Performed → Int
  | status n => n
  | left code => code.toNat
  | fatal _ => 1

namespace Session

theorem firstLine_cut (input : Bytes) :
    (Bytes.firstLine input).1 ++ (Bytes.firstLine input).2 = input ∧
    Bytes.newline ∉ (Bytes.firstLine input).1.dropLast ∧
    ((Bytes.firstLine input).2 ≠ [] → (Bytes.firstLine input).1.getLast? = some Bytes.newline) := by
  refine ⟨Bytes.firstLine_append input, ?_, fun hrest => ?_⟩
  · by_cases hinput : input = []
    · subst hinput
      exact List.not_mem_nil
    · have hmem : (Bytes.firstLine input).1 ∈ Bytes.lines input := by
        rw [Bytes.lines_eq_firstLine hinput]
        exact List.mem_cons_self
      exact (Bytes.mem_lines hmem).2
  · have hinput : input ≠ [] := by
      rintro rfl
      exact hrest rfl
    refine Bytes.getLast?_of_mem_dropLast_lines (s := input) ?_
    rw [Bytes.lines_eq_firstLine hinput, Bytes.lines_eq_firstLine hrest]
    exact List.mem_cons_self

/-- What a session of a single line comes to on a host with records. -/
structure EndsWithStatus (h : Host σ) (settings : Settings)
    (record : Action → σ → List (Exchange Outcome)) : Prop where
  /-- Without input nothing is carried out, and the code is 0. -/
  empty : ∀ (s : State σ) (rounds : Nat),
    run h.fed settings (rounds + 1) (s.fed []) = (some 0, (prepare h settings s).fed [])
  /-- The first line goes up to the first newline, or else to the end of the input. -/
  cut : ∀ input : Bytes, (Bytes.firstLine input).1 ++ (Bytes.firstLine input).2 = input ∧
    Bytes.newline ∉ (Bytes.firstLine input).1.dropLast ∧
    ((Bytes.firstLine input).2 ≠ [] → (Bytes.firstLine input).1.getLast? = some Bytes.newline)
  /-- Of other input the first line is carried out, and the rest is left alone. The code is the
  status of the line, and the system was asked for what the line is about. -/
  line : ∀ (input : Bytes) (s : State σ) (rounds : Nat), input ≠ [] → ∃ code,
    run h.fed settings (rounds + 1) (s.fed input) =
      (some code, (step h settings (none, s) (Bytes.firstLine input).1).2.fed
        (Bytes.firstLine input).2) ∧
    (code.toNat : Int) = (runLine h (Bytes.firstLine input).1 (prepare h settings s)).1.lineStatus ∧
    (code = 0 ↔ ∃ action, reading (Bytes.firstLine input).1 = .ok action ∧
      action.Succeeds (record action (ready h settings s).host)) ∧
    ∀ action, reading (Bytes.firstLine input).1 = .ok action →
      action.Asks (record action (ready h settings s).host)
  /-- A stage that cannot run its program does not exit with 0 either. -/
  stages : ∀ (stage : Stage) (previous next : Option Link)
    (past : List (Exchange Outcome)) (result : Option Outcome)
    (code : UInt8) (reply? : Option Empty), Course (stage.process previous next) past result →
    .called (.exit code) reply? ∈ past → code ≠ 0

variable {h : Host σ} {settings : Settings} {background : σ → Background}
  {record : Action → σ → List (Exchange Outcome)}

def codeIn : Performed → UInt8
  | .status n => codeOf n
  | .left code => code
  | .fatal _ => 1

theorem codeOf_toNat {n : Int} (hleast : 0 ≤ n) (hmost : n ≤ 255) :
    ((codeOf n).toNat : Int) = n := by
  unfold codeOf
  rw [UInt8.toNat_ofNat']
  omega

theorem round_single (hshot : settings.singleShot = true) {input : Bytes}
    (hinput : input ≠ []) (s : State σ) :
    round h.fed settings (s.fed input) =
      (.over (codeIn (runLine h (Bytes.firstLine input).1 (prepare h settings s)).1),
        (step h settings (none, s) (Bytes.firstLine input).1).2.fed (Bytes.firstLine input).2) := by
  rw [round_fed_line hinput]
  refine congrArg (Prod.mk · _) ?_
  generalize (runLine h (Bytes.firstLine input).1 (prepare h settings s)).1 = performed
  cases performed with
  | status n => exact if_pos hshot
  | left code => rfl
  | fatal f => rfl

theorem runLine_fst (line : Bytes) (s : State σ) : (runLine h line (prepare h settings s)).1 =
    match reading line with
    | .error _ => .status unreadableStatus
    | .ok action => (h.perform action (ready h settings s).host).1 := by
  cases hread : reading line with
  | error refusal =>
    unfold reading at hread
    rw [runLine, hread]
  | ok action =>
    unfold reading at hread
    unfold ready
    rw [runLine, hread]
    dsimp only
    generalize h.perform action (flush h (prepare h settings s)).host = performed
    rcases performed with ⟨n | code | f, host⟩ <;> rfl

theorem perform_code (hrecords : h.Records background record) {line : Bytes} {action : Action}
    (hread : reading line = .ok action) (s : σ) :
    ((codeIn (h.perform action s).1).toNat : Int) = (h.perform action s).1.lineStatus ∧
      (codeIn (h.perform action s).1 = 0 ↔ action.Succeeds (record action s)) := by
  have hstages : ∀ p, action = .run p → p.stages ≠ [] := by
    rintro p rfl
    exact (Line.run_of_read hread).1.nonempty
  obtain ⟨result, hcourse, htells⟩ := hrecords.performs action s
  have hbytes := hrecords.bytes action s
  cases hperformed : (h.perform action s).1 with
  | status n =>
    rw [hperformed] at htells
    obtain rfl : result = some ⟨.ok n, _⟩ := htells
    obtain ⟨hleast, hmost, hzero⟩ := (Action.execute_status hstages hcourse hbytes).1 n rfl
    -- the code is a byte, so that only the status 0 can come out as 0
    have hcode := codeOf_toNat hleast hmost
    refine ⟨hcode, Iff.trans ?_ hzero⟩
    show codeOf n = 0 ↔ n = 0
    constructor
    · intro hcodeZero
      rw [hcodeZero] at hcode
      exact hcode.symm
    · rintro rfl
      rfl
  | left code =>
    rw [hperformed] at htells
    obtain ⟨rfl, rfl⟩ := Action.exit_of_left hcourse htells.1
    exact ⟨rfl, iff_of_true rfl trivial⟩
  | fatal f =>
    rw [hperformed] at htells
    obtain rfl : result = some ⟨.error f, _⟩ := htells
    have hfails := (Action.execute_status hstages hcourse hbytes).2 f rfl
    exact ⟨rfl, iff_of_false (show (1 : UInt8) ≠ 0 by decide) hfails⟩

theorem perform_asks (hrecords : h.Records background record) {line : Bytes} {action : Action}
    (hread : reading line = .ok action) (s : σ) : action.Asks (record action s) := by
  have hstages : ∀ p, action = .run p → p.stages ≠ [] := by
    rintro p rfl
    exact (Line.run_of_read hread).1.nonempty
  have hzero : ∀ target, action = .changeDirectory target → '\x00' ∉ target.toList := by
    rintro target rfl
    exact (zero_not_mem_of_part (Line.directory_of_read hread)).1
  obtain ⟨result, hcourse, htells⟩ := hrecords.performs action s
  have hdone (outcome : Outcome) (h : result = some outcome) : action.Asks (record action s) := by
    subst h
    exact Action.execute_asks hstages hzero hcourse
  cases hperformed : (h.perform action s).1 with
  | status n =>
    rw [hperformed] at htells
    exact hdone _ htells
  | fatal f =>
    rw [hperformed] at htells
    exact hdone _ htells
  | left code =>
    rw [hperformed] at htells
    obtain ⟨rfl, -⟩ := Action.exit_of_left hcourse htells.1
    trivial

/-- A session of a single line ends with the status of its line, and with 0 only if that has
succeeded. -/
theorem ends_with_status (hrecords : h.Records background record)
    (hshot : settings.singleShot = true) : EndsWithStatus h settings record where
  empty s rounds := by
    have hprompt : settings.showPrompt = false := by rw [Settings.showPrompt, hshot]; rfl
    rw [run, round_fed_nil]
    unfold conclude
    rw [hprompt]
    rfl
  cut := firstLine_cut
  line input s rounds hinput := by
    refine ⟨codeIn (runLine h (Bytes.firstLine input).1 (prepare h settings s)).1, ?_, ?_⟩
    · rw [run, round_single hshot hinput]
    rw [← and_assoc]
    refine ⟨?_, fun action hread => perform_asks hrecords hread _⟩
    · rw [runLine_fst]
      cases hread : reading (Bytes.firstLine input).1 with
      | error refusal =>
        refine ⟨rfl, iff_of_false (show codeOf unreadableStatus ≠ 0 by decide) ?_⟩
        rintro ⟨action, haction, -⟩
        cases haction
      | ok action =>
        obtain ⟨hstatus, hzero⟩ := perform_code hrecords hread (ready h settings s).host
        refine ⟨hstatus, hzero.trans ?_⟩
        constructor
        · exact fun hsucceeds => ⟨action, rfl, hsucceeds⟩
        · rintro ⟨action', haction, hsucceeds⟩
          cases haction
          exact hsucceeds
  stages stage previous next past result code reply? hcourse hexit :=
    (hcourse.of_confined (stage.process_complains previous next)).1 _ _ hexit code rfl

/-! ### A host on which every child exits with the same code -/

private def answer : (c : Call) → Option c.Reply
  | .pipe => some (.ok (3, 4))
  | .waitFor pid => some (.ok (.exited pid 3))
  | c => c.refusal?

private def carryOut : Program Outcome → List (Exchange Outcome) × Option Outcome
  | .done o => ([], some o)
  | .call c next =>
    match answer c with
    | none => ([.called c none], none)
    | some reply => (.called c (some reply) :: (carryOut (next reply)).1, (carryOut (next reply)).2)
  | .fork child next =>
    (.forked child (.ok 7) :: (carryOut (next (.ok 7))).1, (carryOut (next (.ok 7))).2)
  | .transfer t _ => ([.transferred t none], none)
  | .flood fd block _ => ([.flooded fd block none], none)

private theorem answer_settled {c : Call} {reply : c.Reply} (h : answer c = some reply) :
    c.isInterrupted reply = false := by
  cases c with
  | waitFor pid =>
    cases h
    rfl
  | _ => rfl

private theorem carryOut_course (x : Program Outcome) : Course x (carryOut x).1 (carryOut x).2 := by
  induction x with
  | done o => exact .done o
  | call c next ih =>
    unfold carryOut
    split
    · exact .awaiting c next
    · next reply hanswer =>
      refine .answered reply ?_
      rw [resume, answer_settled hanswer]
      exact ih reply
  | fork child next _ ih => exact .forked (.ok 7) (ih (.ok 7))
  | transfer t next => exact .transferring t next
  | flood fd block next => exact .flooding fd block next

private theorem answer_of_carryOut {x : Program Outcome} {c : Call} {reply : c.Reply}
    (h : .called c (some reply) ∈ (carryOut x).1) : answer c = some reply := by
  induction x with
  | done o => exact absurd h List.not_mem_nil
  | call c' next ih =>
    unfold carryOut at h
    split at h
    · cases List.mem_singleton.mp h
    · next reply' hanswer =>
      rcases List.mem_cons.mp h with heq | h
      · cases heq
        exact hanswer
      · exact ih reply' h
  | fork child next _ ih =>
    rcases List.mem_cons.mp h with heq | h
    · cases heq
    · exact ih (.ok 7) h
  | transfer t next => cases List.mem_singleton.mp h
  | flood fd block next => cases List.mem_singleton.mp h

private theorem carryOut_result {x : Program Outcome} {forks : Prop} {Q : Outcome → Prop}
    (hx : x.Confined Call.Stays forks Q) : (carryOut x).2 ≠ none := by
  induction x with
  | done o => exact nofun
  | call c next ih =>
    unfold carryOut
    split
    · next hanswer =>
      cases c with
      | exit code => exact absurd rfl (hx.1 code)
      | _ => cases hanswer
    · next reply hanswer => exact ih reply (hx.2 reply)
  | fork child next _ ih => exact ih (.ok 7) (hx.2 (.ok 7))
  | transfer => exact hx.elim
  | flood => exact hx.elim

private def exitsWithThree : Host Background where
  reap b := b
  directory _ := none
  write _ b := b
  complain _ b := b
  note _ b := b
  readLine b := (.ok [], b)
  perform action b :=
    match (carryOut (action.execute b)).2 with
    | some ⟨.ok n, b⟩ => (.status n, b)
    | some ⟨.error f, b⟩ => (.fatal f, b)
    | none => (.left 0, b)

private theorem exitsWithThree_records :
    exitsWithThree.Records id fun action b => (carryOut (action.execute b)).1 where
  performs action b := by
    refine ⟨_, carryOut_course _, ?_⟩
    unfold exitsWithThree
    dsimp only
    cases hresult : (carryOut (action.execute b)).2 with
    | some o =>
      obtain ⟨fatal | n, b'⟩ := o
      · exact hresult
      · exact hresult
    | none =>
      by_cases hexit : action = .exit
      · subst hexit
        exact ⟨List.mem_cons_of_mem _ List.mem_cons_self, rfl⟩
      · exact absurd hresult (carryOut_result (Action.execute_stays hexit b))
  bytes action b child pid code hmem := by
    cases answer_of_carryOut hmem
    exact ⟨by decide, by decide⟩

private def twoStages : Pipeline := ⟨[⟨["a"], none, none⟩, ⟨["b"], none, none⟩], false⟩

private def oneLine : Settings := { singleShot := true }

/-- The code is that of the last stage, which has not succeeded, and the second line is left. -/
theorem ends_with_three :
    (∃ final, run exitsWithThree.fed oneLine 1
      (State.fed (Bytes.ofString "a|b\nexit") { host := {} }) =
      (some 3, State.fed (Bytes.ofString "exit") final)) ∧
    ¬(Action.run twoStages).Succeeds (carryOut ((Action.run twoStages).execute {})).1 := by
  have hshot : oneLine.singleShot = true := rfl
  obtain ⟨code, hrun, hstatus, hzero, -⟩ := (ends_with_status exitsWithThree_records hshot).line
    (Bytes.ofString "a|b\nexit") { host := {} } 0 (by decide +kernel)
  have hline : (Bytes.firstLine (Bytes.ofString "a|b\nexit")).2 =
      Bytes.ofString "exit" := by decide +kernel
  have hthree : (runLine exitsWithThree (Bytes.firstLine (Bytes.ofString "a|b\nexit")).1
      (prepare exitsWithThree oneLine { host := {} })).1.lineStatus = 3 := by decide +kernel
  have hread : reading (Bytes.firstLine (Bytes.ofString "a|b\nexit")).1 =
      .ok (.run twoStages) := by decide +kernel
  rw [hthree] at hstatus
  obtain rfl : code = 3 := UInt8.toNat_inj.mp (Int.ofNat.inj hstatus)
  rw [hline] at hrun
  refine ⟨⟨_, hrun⟩, fun hsucceeds => ?_⟩
  exact absurd (hzero.mpr ⟨_, hread, hsucceeds⟩) (by decide)

end Session

end PipeShell
