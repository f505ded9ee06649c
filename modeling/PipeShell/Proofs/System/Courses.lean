import PipeShell.Proofs.Job.Contract

/-!
What a process does by itself: the calls that it makes one after the other, whatever the answers to
them are. Nothing is assumed of the system, which may refuse to start a child as well; what is found
out about all courses of a program holds however the calls turn out.
-/

set_option autoImplicit false
set_option relaxedAutoImplicit false

namespace PipeShell

variable {α β : Type}

/-- Something that a process asks of the system, with the answer to it. What has not come back yet
has no answer. -/
inductive Exchange (α : Type)
  | called (c : Call) (reply? : Option c.Reply)
  | forked (child : Program α) (reply : Except Errno Pid)
  | transferred (t : Transfer) (result? : Option Transferred)
  | flooded (fd : Fd) (block : Bytes) (reason? : Option Errno)

namespace Exchange

def andThen (f : α → Program β) : Exchange α → Exchange β
  | called c reply? => .called c reply?
  | forked child reply => .forked (child >>= f) reply
  | transferred t result? => .transferred t result?
  | flooded fd block reason? => .flooded fd block reason?

@[simp] theorem andThen_called (f : α → Program β) (c : Call) (reply? : Option c.Reply) :
    (called c reply?).andThen f = .called c reply? := rfl

def child? : Exchange α → Option (Pid × Program α)
  | forked child (.ok pid) => some (pid, child)
  | _ => none

@[simp] theorem child?_called (c : Call) (reply? : Option c.Reply) :
    (called c reply? : Exchange α).child? = none := rfl

@[simp] theorem child?_refused (child : Program α) (reason : Errno) :
    (forked child (.error reason)).child? = none := rfl

@[simp] theorem child?_forked (child : Program α) (pid : Pid) :
    (forked child (.ok pid)).child? = some (pid, child) := rfl

theorem child?_andThen (f : α → Program β) (e : Exchange α) :
    (e.andThen f).child? = e.child?.map fun (pid, child) => (pid, child >>= f) := by
  cases e with
  | forked child reply => cases reply <;> rfl
  | _ => rfl

end Exchange

def children (past : List (Exchange α)) : List (Pid × Program α) := past.filterMap Exchange.child?

@[simp] theorem children_nil : children ([] : List (Exchange α)) = [] := rfl

theorem children_append (past more : List (Exchange α)) :
    children (past ++ more) = children past ++ children more := List.filterMap_append

theorem children_andThen (f : α → Program β) (past : List (Exchange α)) :
    children (past.map (Exchange.andThen f)) = (children past).map fun (pid, child) =>
      (pid, child >>= f) := by
  rw [children, List.filterMap_map, children, List.map_filterMap]
  exact congrArg (past.filterMap ·) (funext (Exchange.child?_andThen f))

theorem called_mem_andThen {f : α → Program β} {past : List (Exchange α)} {c : Call}
    {reply? : Option c.Reply} :
    .called c reply? ∈ past.map (Exchange.andThen f) ↔ .called c reply? ∈ past := by
  constructor
  · intro h
    obtain ⟨exchange, hmem, heq⟩ := List.mem_map.mp h
    cases exchange with
    | called c' reply?' =>
      rw [Exchange.andThen_called] at heq
      cases heq
      exact hmem
    | _ => cases heq
  · exact fun h => List.mem_map.mpr ⟨_, h, rfl⟩

def Exchange.call? : Exchange α → Option Call
  | .called c _ => some c
  | _ => none

def calls (past : List (Exchange α)) : List Call := past.filterMap Exchange.call?

theorem calls_append (past more : List (Exchange α)) :
    calls (past ++ more) = calls past ++ calls more :=
  List.filterMap_append

/-- An answer that refuses what can be refused. Leaving has no answer. -/
def Call.refusal? : (c : Call) → Option c.Reply
  | .pipe | .duplicate .. | .openFile .. | .waitFor _ | .awaitEnd _ | .poll _ | .write ..
    | .change _ | .names _
  | .examine .. | .workingDirectory | .signal .. => some (.error .noEntry)
  | .close _ | .seek .. | .provide _ | .sleep _ | .restore _ | .note _ => some ()
  | .exec _ | .execFile .. => some Errno.noEntry
  | .exit _ => none
  | .inspect _ => some none
  | .environment => some []
  | .withhold _ | .self => some (0 : Nat)

theorem Call.exists_refusal {c : Call} (h : ∀ code, c ≠ .exit code) :
    ∃ reply, c.refusal? = some reply := by
  cases hrefusal : c.refusal? with
  | some reply => exact ⟨reply, rfl⟩
  | none =>
    cases c with
    | exit code => exact absurd rfl (h code)
    | _ => cases hrefusal

theorem Call.refusal_settled {c : Call} {reply : c.Reply} (h : c.refusal? = some reply) :
    c.isInterrupted reply = false := by
  cases c with
  | waitFor =>
    cases h
    rfl
  | _ => rfl

theorem Call.exists_settled {c : Call} (h : ∀ code, c ≠ .exit code) :
    ∃ reply, c.isInterrupted reply = false := by
  obtain ⟨reply, hrefusal⟩ := exists_refusal h
  exact ⟨reply, refusal_settled hrefusal⟩

namespace Program

/-- What a program does up to some moment, and its result if it is at its end then. -/
inductive Course : Program α → List (Exchange α) → Option α → Prop
  | started (x : Program α) : Course x [] none
  | done (a : α) : Course (.done a) [] (some a)
  | awaiting (c : Call) (next : c.Reply → Program α) : Course (.call c next) [.called c none] none
  | answered {c : Call} {next : c.Reply → Program α} (reply : c.Reply)
      {past : List (Exchange α)} {result : Option α} :
      Course (resume c next reply) past result →
      Course (.call c next) (.called c (some reply) :: past) result
  | forked {child : Program α} {next : Except Errno Pid → Program α} (reply : Except Errno Pid)
      {past : List (Exchange α)} {result : Option α} :
      Course (next reply) past result →
      Course (.fork child next) (.forked child reply :: past) result
  | transferring (t : Transfer) (next : Transferred → Program α) :
      Course (.transfer t next) [.transferred t none] none
  | transferred {t : Transfer} {next : Transferred → Program α} (r : Transferred)
      {past : List (Exchange α)} {result : Option α} :
      Course (next r) past result →
      Course (.transfer t next) (.transferred t (some r) :: past) result
  | flooding (fd : Fd) (block : Bytes) (next : Errno → Program α) :
      Course (.flood fd block next) [.flooded fd block none] none
  | flooded {fd : Fd} {block : Bytes} {next : Errno → Program α} (reason : Errno)
      {past : List (Exchange α)} {result : Option α} :
      Course (next reason) past result →
      Course (.flood fd block next) (.flooded fd block (some reason) :: past) result

variable {past : List (Exchange α)} {result : Option α}

theorem Course.of_done {a : α} (h : Course (.done a) past result) :
    past = [] ∧ (result = none ∨ result = some a) := by
  cases h with
  | started => exact ⟨rfl, .inl rfl⟩
  | done => exact ⟨rfl, .inr rfl⟩

theorem Course.of_call {c : Call} {next : c.Reply → Program α}
    (h : Course (.call c next) past result) :
    past = [] ∧ result = none ∨ past = [.called c none] ∧ result = none ∨
      ∃ reply rest, past = .called c (some reply) :: rest ∧
        Course (resume c next reply) rest result := by
  cases h with
  | started => exact .inl ⟨rfl, rfl⟩
  | awaiting => exact .inr (.inl ⟨rfl, rfl⟩)
  | answered reply h => exact .inr (.inr ⟨reply, _, rfl, h⟩)

theorem Course.of_fork {child : Program α} {next : Except Errno Pid → Program α}
    (h : Course (.fork child next) past result) :
    past = [] ∧ result = none ∨
      ∃ reply rest, past = .forked child reply :: rest ∧ Course (next reply) rest result := by
  cases h with
  | started => exact .inl ⟨rfl, rfl⟩
  | forked reply h => exact .inr ⟨reply, _, rfl, h⟩

theorem resume_of_not_wait {c : Call} (h : ∀ pid, c ≠ .waitFor pid) (next : c.Reply → Program α)
    (reply : c.Reply) : resume c next reply = next reply := by
  have hsettled : c.isInterrupted reply = false := by
    cases c with
    | waitFor pid => exact absurd rfl (h pid)
    | _ => rfl
  rw [resume, hsettled]
  rfl

theorem Course.behind_call {c : Call} {next : c.Reply → Program α}
    (h : Course (.call c next) past result) (hwait : ∀ pid, c ≠ .waitFor pid) {c' : Call}
    {reply? : Option c'.Reply} (hmem : .called c' reply? ∈ past) (hne : c' ≠ c) :
    ∃ reply rest, past = .called c (some reply) :: rest ∧ Course (next reply) rest result ∧
      .called c' reply? ∈ rest := by
  rcases h.of_call with ⟨rfl, -⟩ | ⟨rfl, -⟩ | ⟨reply, rest, rfl, hrest⟩
  · exact absurd hmem List.not_mem_nil
  · cases List.mem_singleton.mp hmem
    exact absurd rfl hne
  · rw [resume_of_not_wait hwait] at hrest
    refine ⟨reply, rest, rfl, hrest, ?_⟩
    rcases List.mem_cons.mp hmem with heq | hmem
    · cases heq
      exact absurd rfl hne
    · exact hmem

theorem resume_bind {c : Call} (next : c.Reply → Program α) (reply : c.Reply) (f : α → Program β) :
    resume c (fun r => next r >>= f) reply = resume c next reply >>= f := by
  unfold resume
  split <;> rfl

theorem Course.bind {f : α → Program β} {x : Program α}
    {before : List (Exchange α)} {a : α} {after : List (Exchange β)}
    {result : Option β} (h : Course x before (some a)) (hafter : Course (f a) after result) :
    Course (x >>= f) (before.map (Exchange.andThen f) ++ after) result := by
  generalize hlast : some a = last at h
  induction h with
  | started => cases hlast
  | done b =>
    obtain rfl := Option.some.inj hlast
    exact hafter
  | awaiting => cases hlast
  | answered reply h ih =>
    refine .answered reply ?_
    have := ih hlast
    rw [← resume_bind] at this
    exact this
  | forked reply h ih => exact .forked reply (ih hlast)
  | transferring => cases hlast
  | transferred r h ih => exact .transferred r (ih hlast)
  | flooding => cases hlast
  | flooded reason h ih => exact .flooded reason (ih hlast)

theorem Course.of_bind {f : α → Program β} {past : List (Exchange β)} {result : Option β} :
    ∀ {x : Program α}, Course (x >>= f) past result →
      (∃ before, past = before.map (Exchange.andThen f) ∧ Course x before none ∧ result = none) ∨
      ∃ before after a, past = before.map (Exchange.andThen f) ++ after ∧ Course x before (some a) ∧
        Course (f a) after result := by
  have hfirst {x : Program α} {exchange : Exchange α} {y : Program α} {rest : List (Exchange β)}
      (hstep : ∀ {past : List (Exchange α)} {r : Option α}, Course y past r →
        Course x (exchange :: past) r)
      (h : (∃ before, rest = before.map (Exchange.andThen f) ∧
        Course y before none ∧ result = none) ∨
        ∃ before after a, rest = before.map (Exchange.andThen f) ++ after ∧
          Course y before (some a) ∧ Course (f a) after result) :
      (∃ before, exchange.andThen f :: rest = before.map (Exchange.andThen f) ∧
        Course x before none ∧ result = none) ∨
        ∃ before after a, exchange.andThen f :: rest = before.map (Exchange.andThen f) ++ after ∧
          Course x before (some a) ∧ Course (f a) after result := by
    rcases h with ⟨before, rfl, hy, hresult⟩ | ⟨before, after, a, rfl, hy, hafter⟩
    · exact .inl ⟨exchange :: before, rfl, hstep hy, hresult⟩
    · exact .inr ⟨exchange :: before, after, a, rfl, hstep hy, hafter⟩
  induction past with
  | nil =>
    intro x h
    cases x with
    | done a => exact .inr ⟨[], [], a, rfl, .done a, h⟩
    | call c next => cases h; exact .inl ⟨[], rfl, .started _, rfl⟩
    | fork child next => cases h; exact .inl ⟨[], rfl, .started _, rfl⟩
    | transfer t next => cases h; exact .inl ⟨[], rfl, .started _, rfl⟩
    | flood fd block next => cases h; exact .inl ⟨[], rfl, .started _, rfl⟩
  | cons exchange past ih =>
    intro x h
    cases x with
    | done a => exact .inr ⟨[], exchange :: past, a, rfl, .done a, h⟩
    | call c next =>
      cases h with
      | awaiting => exact .inl ⟨[.called c none], rfl, .awaiting c next, rfl⟩
      | answered reply h =>
        have hbound : Course (resume c (fun r => next r >>= f) reply) past result := h
        rw [resume_bind] at hbound
        exact hfirst (.answered reply) (ih hbound)
    | fork child next =>
      cases h with
      | forked reply h => exact hfirst (.forked reply) (ih h)
    | transfer t next =>
      cases h with
      | transferring => exact .inl ⟨[.transferred t none], rfl, .transferring t next, rfl⟩
      | transferred r h => exact hfirst (.transferred r) (ih h)
    | flood fd block next =>
      cases h with
      | flooding => exact .inl ⟨[.flooded fd block none], rfl, .flooding fd block next, rfl⟩
      | flooded reason h => exact hfirst (.flooded reason) (ih h)

end Program

namespace Program

/-- A program makes certain calls only and comes to certain results only, however the calls turn
out. Whether it starts children at all is said as well, but not what these do. -/
def Confined (may : Call → Prop) (forks : Prop) (Q : α → Prop) : Program α → Prop
  | .done a => Q a
  | .call c next => may c ∧ ∀ reply, Confined may forks Q (next reply)
  | .fork _ next => forks ∧ ∀ reply, Confined may forks Q (next reply)
  | .transfer _ _ => False
  | .flood .. => False

variable {may may' : Call → Prop} {forks forks' : Prop} {Q R : α → Prop} {x : Program α}
  {past : List (Exchange α)} {result : Option α}

theorem Confined.mono (h : x.Confined may forks Q) (hmay : ∀ c, may c → may' c)
    (hforks : forks → forks') (hqr : ∀ a, Q a → R a) : x.Confined may' forks' R := by
  induction x with
  | done a => exact hqr a h
  | call c next ih => exact ⟨hmay c h.1, fun reply => ih reply (h.2 reply)⟩
  | fork child next _ ih => exact ⟨hforks h.1, fun reply => ih reply (h.2 reply)⟩
  | transfer => exact h
  | flood => exact h

theorem Confined.imp (h : x.Confined may forks Q) (hqr : ∀ a, Q a → R a) : x.Confined may forks R :=
  h.mono (fun _ => id) id hqr

theorem Confined.bind {f : α → Program β} {S : β → Prop}
    (h : x.Confined may forks fun a => (f a).Confined may forks S) :
    (x >>= f).Confined may forks S := by
  induction x with
  | done a => exact h
  | call c next ih => exact ⟨h.1, fun reply => ih reply (h.2 reply)⟩
  | fork child next _ ih => exact ⟨h.1, fun reply => ih reply (h.2 reply)⟩
  | transfer => exact h.elim
  | flood => exact h.elim

theorem confined_ask {c : Call} {Q : c.Reply → Prop} (hmay : may c) (hq : ∀ reply, Q reply) :
    (ask c).Confined may forks Q := ⟨hmay, hq⟩

theorem confined_act {c : Call} {Q : Unit → Prop} (hmay : may c) (hq : Q ()) :
    (act c).Confined may forks Q :=
  ⟨hmay, fun _ => hq⟩

theorem Course.of_confined (h : Course x past result) (hx : x.Confined may forks Q) :
    (∀ c reply?, .called c reply? ∈ past → may c) ∧
      (∀ child reply, .forked child reply ∈ past → forks) ∧
      ∀ a ∈ result, Q a := by
  induction h with
  | started => exact ⟨by simp, by simp, by simp⟩
  | done a =>
    have hq : Q a := hx
    exact ⟨by simp, by simp, by simpa using hq⟩
  | awaiting c next =>
    refine ⟨fun c' reply? hmem => ?_, by simp, by simp⟩
    cases List.mem_singleton.mp hmem
    exact hx.1
  | @answered c next reply past result h ih =>
    have hrest : (resume c next reply).Confined may forks Q := by
      unfold resume
      split
      · exact hx
      · exact hx.2 reply
    obtain ⟨hcalls, hforks, hresult⟩ := ih hrest
    refine ⟨fun c' reply? hmem => ?_, fun child reply' hmem => ?_, hresult⟩
    · rcases List.mem_cons.mp hmem with heq | hmem
      · cases heq
        exact hx.1
      · exact hcalls c' reply? hmem
    · rcases List.mem_cons.mp hmem with heq | hmem
      · cases heq
      · exact hforks child reply' hmem
  | @forked child next reply past result h ih =>
    obtain ⟨hcalls, hforks, hresult⟩ := ih (hx.2 reply)
    refine ⟨fun c reply? hmem => ?_, fun _ _ _ => hx.1, hresult⟩
    rcases List.mem_cons.mp hmem with heq | hmem
    · cases heq
    · exact hcalls c reply? hmem
  | transferring => exact hx.elim
  | transferred => exact hx.elim
  | flooding => exact hx.elim
  | flooded => exact hx.elim

theorem Course.childless (h : Course x past result) (hx : x.Confined may False Q) :
    children past = [] := by
  refine List.filterMap_eq_nil_iff.mpr fun exchange hmem => ?_
  cases exchange with
  | forked child reply => exact ((h.of_confined hx).2.1 child reply hmem).elim
  | _ => rfl

/-! ### Courses that have come to their end -/

variable {a : α} {b : β}

theorem course_done_iff {x : α} : Course (.done x) past (some a) ↔ past = [] ∧ a = x := by
  constructor
  · intro h
    cases h
    exact ⟨rfl, rfl⟩
  · rintro ⟨rfl, rfl⟩
    exact .done a

theorem course_call_iff {c : Call} {next : c.Reply → Program α} (hwait : ∀ pid, c ≠ .waitFor pid) :
    Course (.call c next) past (some a) ↔
      ∃ reply rest, past = .called c (some reply) :: rest ∧ Course (next reply) rest (some a) := by
  constructor
  · intro h
    rcases h.of_call with ⟨-, hnone⟩ | ⟨-, hnone⟩ | ⟨reply, rest, rfl, hrest⟩
    · cases hnone
    · cases hnone
    · rw [resume_of_not_wait hwait] at hrest
      exact ⟨reply, rest, rfl, hrest⟩
  · rintro ⟨reply, rest, rfl, hrest⟩
    apply Course.answered
    rwa [resume_of_not_wait hwait]

theorem course_fork_iff {child : Program α} {next : Except Errno Pid → Program α} :
    Course (.fork child next) past (some a) ↔
      ∃ reply rest, past = .forked child reply :: rest ∧ Course (next reply) rest (some a) := by
  constructor
  · intro h
    rcases h.of_fork with ⟨-, hnone⟩ | hforked
    · cases hnone
    · exact hforked
  · rintro ⟨reply, rest, rfl, hrest⟩
    exact .forked reply hrest

theorem course_bind_iff {x : Program α} {f : α → Program β} {past : List (Exchange β)} :
    Course (x >>= f) past (some b) ↔
      ∃ before after a, past = before.map (Exchange.andThen f) ++ after ∧ Course x before (some a) ∧
        Course (f a) after (some b) := by
  constructor
  · intro h
    rcases h.of_bind with ⟨-, -, -, hnone⟩ | hboth
    · cases hnone
    · exact hboth
  · rintro ⟨before, after, a, rfl, hx, hafter⟩
    exact hx.bind hafter

/-! ### Courses that can be brought to their end -/

/-- A system that refuses everything brings a program to its end. -/
theorem Confined.exists_refused (hx : x.Confined may forks Q) (hstays : ∀ code, ¬may (.exit code)) :
    ∃ past a, Course x past (some a) ∧ ∀ c reply, .called c (some reply) ∈ past →
      c.refusal? = some reply := by
  induction x with
  | done a => exact ⟨[], a, .done a, by simp⟩
  | call c next ih =>
    obtain ⟨reply, hrefusal⟩ := Call.exists_refusal (c := c) fun code heq =>
      hstays code (heq ▸ hx.1)
    obtain ⟨past, a, hcourse, hpast⟩ := ih reply (hx.2 reply)
    refine ⟨.called c (some reply) :: past, a, .answered reply ?_, fun c' reply' hmem => ?_⟩
    · rwa [resume, Call.refusal_settled hrefusal]
    · rcases List.mem_cons.mp hmem with heq | hmem
      · cases heq
        exact hrefusal
      · exact hpast c' reply' hmem
  | fork child next _ ih =>
    obtain ⟨past, a, hcourse, hpast⟩ := ih (.error .noEntry) (hx.2 _)
    exact ⟨_, a, .forked _ hcourse, by simpa using hpast⟩
  | transfer | flood => exact hx.elim

theorem Confined.exists_course (hx : x.Confined may forks Q) (hstays : ∀ code, ¬may (.exit code)) :
    ∃ past a, Course x past (some a) := by
  obtain ⟨past, a, hcourse, -⟩ := hx.exists_refused hstays
  exact ⟨past, a, hcourse⟩

theorem Course.completed (h : Course x past result) (hx : x.Confined may forks Q)
    (hstays : ∀ code, ¬may (.exit code)) :
    ∃ past' a, Course x past' (some a) ∧
      calls past <+: calls past' ∧ children past <+: children past' ∧
      ∀ b ∈ result, b = a := by
  induction h with
  | started x =>
    obtain ⟨past', a, hcourse⟩ := hx.exists_course hstays
    exact ⟨past', a, hcourse, List.nil_prefix, List.nil_prefix, by simp⟩
  | done a => exact ⟨[], a, .done a, List.prefix_refl _, List.prefix_refl _, by simp⟩
  | awaiting c next =>
    -- an answer is missing that ends the call
    obtain ⟨reply, hsettled⟩ := Call.exists_settled (c := c) fun code heq =>
      hstays code (heq ▸ hx.1)
    obtain ⟨past', a, hcourse⟩ := (hx.2 reply).exists_course hstays
    refine ⟨.called c (some reply) :: past', a, .answered reply ?_,
      List.cons_prefix_cons.mpr ⟨rfl, List.nil_prefix⟩, List.nil_prefix, by simp⟩
    rwa [resume, hsettled]
  | @answered c next reply past result _ ih =>
    have hrest : (resume c next reply).Confined may forks Q := by
      unfold resume
      split
      · exact hx
      · exact hx.2 reply
    obtain ⟨past', a, hcourse, hcalls, hchildren, hresult⟩ := ih hrest
    exact ⟨_, a, .answered reply hcourse, List.cons_prefix_cons.mpr ⟨rfl, hcalls⟩,
      hchildren, hresult⟩
  | @forked child next reply past result _ ih =>
    obtain ⟨past', a, hcourse, hcalls, hchildren, hresult⟩ := ih (hx.2 reply)
    refine ⟨_, a, .forked reply hcourse, hcalls, ?_, hresult⟩
    cases reply with
    | error reason => exact hchildren
    | ok pid => exact List.cons_prefix_cons.mpr ⟨rfl, hchildren⟩
  | transferring | transferred | flooding | flooded => exact hx.elim

end Program

/-! ### Courses under a contract -/

section

variable {γ : Type} {K : Contract γ} {R S : γ → Prop} {g : γ}

/-- Whether a contract permits what is exchanged with the system, from some state on, and some
predicate holds of every state that it can leave. -/
def Contract.Permits (K : Contract γ) (R : γ → Prop) : List (Exchange α) → γ → Prop
  | [], g => R g
  | .called c reply? :: rest, g =>
    K.may g c ∧ ∀ reply ∈ reply?, ∀ g', K.gives g c reply g' → K.Permits R rest g'
  | .forked child reply :: rest, g =>
    (∃ (stage : Stage) (previous link : Option Link),
      child = stage.process previous link ∧ K.mayStart g stage previous link) ∧
    ∀ pid, reply = .ok pid → ∀ g', K.starts g pid g' → K.Permits R rest g'
  | .transferred .. :: _, _ => False
  | .flooded .. :: _, _ => False

theorem Contract.Permits.mono {past : List (Exchange α)} (h : K.Permits R past g)
    (hrs : ∀ g, R g → S g) : K.Permits S past g := by
  induction past generalizing g with
  | nil => exact hrs g h
  | cons exchange past ih =>
    cases exchange with
    | called c reply? => exact ⟨h.1, fun reply hreply g' hgives => ih (h.2 reply hreply g' hgives)⟩
    | forked child reply => exact ⟨h.1, fun pid hpid g' hstarts => ih (h.2 pid hpid g' hstarts)⟩
    | transferred => exact h
    | flooded => exact h

/-- A program honours a contract if that permits all courses in which it comes to its end, as long
as it waits for nobody and never leaves. -/
theorem Program.honours_of_courses {x : Program α} {may : Call → Prop} {forks : Prop} {P : α → Prop}
    {Q : α → γ → Prop} (hx : x.Confined may forks P) (hstays : ∀ code, ¬may (.exit code))
    (hwaits : ∀ pid, ¬may (.waitFor pid))
    (h : ∀ past a, Course x past (some a) → K.Permits (Q a) past g) :
    x.Honours K Q g := by
  induction x generalizing g with
  | done a => exact h [] a (.done a)
  | call c next ih =>
    have hwait (pid : Pid) : c ≠ .waitFor pid := fun heq => hwaits pid (heq ▸ hx.1)
    have hpermits (reply : c.Reply) (past : List (Exchange α)) (a : α)
        (hcourse : Course (next reply) past (some a)) :
        K.Permits (Q a) (.called c (some reply) :: past) g :=
      h _ a ((course_call_iff hwait).mpr ⟨reply, past, rfl, hcourse⟩)
    constructor
    · obtain ⟨past, a, hcourse⟩ := hx.exists_course hstays
      obtain ⟨reply, rest, -, hrest⟩ := (course_call_iff hwait).mp hcourse
      exact (hpermits reply rest a hrest).1
    · intro reply g' hgives
      exact ih reply (hx.2 reply) fun past a hcourse =>
        (hpermits reply past a hcourse).2 reply rfl g' hgives
  | fork child next _ ih =>
    have hpermits (reply : Except Errno Pid) (past : List (Exchange α)) (a : α)
        (hcourse : Course (next reply) past (some a)) :
        K.Permits (Q a) (.forked child reply :: past) g :=
      h _ a (.forked reply hcourse)
    constructor
    · obtain ⟨past, a, hcourse⟩ := hx.exists_course hstays
      obtain ⟨reply, rest, -, hrest⟩ := course_fork_iff.mp hcourse
      exact (hpermits reply rest a hrest).1
    · intro pid g' hstarts
      exact ih (.ok pid) (hx.2 _) fun past a hcourse =>
        (hpermits _ past a hcourse).2 pid rfl g' hstarts
  | transfer | flood => exact hx.elim

end

end PipeShell
