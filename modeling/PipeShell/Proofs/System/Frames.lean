import PipeShell.Proofs.System.Effects

/-!
What an effect leaves alone. Numbers of processes are not used again, the endings of processes stay
what they are until they are collected, a process is otherwise changed by nobody but itself, and a
child stays the child of its parent as long as that lives and does not take it away.
-/

set_option autoImplicit false
set_option relaxedAutoImplicit false

namespace PipeShell

variable {α : Type}

namespace Process

def orphan (pid : Pid) (p : Process α) : Process α :=
  if p.parent = pid then { p with parent := 0 } else p

/-- A process is what it was, save that it may have been stopped and may have another parent. -/
def Same (p p' : Process α) : Prop :=
  ∃ parent stopped, p' = { p with parent := parent, stopped := stopped }

/-- A process was ended by a signal. It is still where it was, with what it had left to do. -/
def Struck (p p' : Process α) : Prop :=
  p'.directory = p.directory ∧ p'.program = p.program ∧ ∃ number, p'.ending? = some (.killed number)

theorem Same.refl (p : Process α) : Same p p := ⟨p.parent, p.stopped, rfl⟩

theorem Same.trans {p p' p'' : Process α} (h : Same p p') (h' : Same p' p'') : Same p p'' := by
  obtain ⟨a, b, rfl⟩ := h
  obtain ⟨c, d, rfl⟩ := h'
  exact ⟨c, d, rfl⟩

theorem Struck.ended {p p' : Process α} (h : p.Struck p') : p'.ending? ≠ none := by
  obtain ⟨-, -, number, hending⟩ := h
  simp [hending]

theorem struck_or_same_trans {p p' p'' : Process α} (h : Struck p p' ∨ Same p p')
    (h' : Struck p' p'' ∨ Same p' p'') : Struck p p'' ∨ Same p p'' := by
  rcases h with ⟨hdirectory, hprogram, hkilled⟩ | ⟨parent, stopped, rfl⟩
  · rcases h' with ⟨hdirectory', hprogram', hkilled'⟩ | ⟨parent, stopped, rfl⟩
    · exact .inl ⟨hdirectory'.trans hdirectory, hprogram'.trans hprogram, hkilled'⟩
    · exact .inl ⟨hdirectory, hprogram, hkilled⟩
  · exact h'.imp id fun hsame => .trans ⟨parent, stopped, rfl⟩ hsame

theorem orphan_same (pid : Pid) (p : Process α) : Same p (p.orphan pid) := by
  unfold orphan
  split
  · exact ⟨0, p.stopped, rfl⟩
  · exact Same.refl p

theorem orphan_keeps (pid : Pid) (p : Process α) :
    (p.orphan pid).directory = p.directory ∧ (p.orphan pid).program = p.program := by
  obtain ⟨_, _, heq⟩ := p.orphan_same pid
  rw [heq]
  exact ⟨rfl, rfl⟩

theorem orphan_parent {pid : Pid} {p : Process α} (h : p.parent ≠ pid) :
    p.orphan pid = p := if_neg h

end Process

namespace Machine

def Alive (m : Machine α) (pid : Pid) : Prop :=
  ∃ p, m.processes.get? pid = some p ∧ p.ending? = none

/-- A machine as it comes about: the numbers of processes are below the next one, descriptors and
fifos lead to something. -/
structure Sound (m : Machine α) : Prop where
  numbered : ∀ pid p, m.processes.get? pid = some p → pid < m.nextPid ∧ p.parent < m.nextPid
  known : ∀ pid p, m.processes.get? pid = some p → ∀ h ∈ p.descriptors.values, m.Knows h
  fifos : ∀ id number, m.fifos.get? id = some number → m.Knows (.readEnd number)

theorem get?_finish (m : Machine α) (pid other : Pid) (e : Ending) :
    (m.finish pid e).processes.get? other =
      if other = pid then (m.processes.get? pid).map fun p =>
        { p.orphan pid with descriptors := {}, rendezvous? := none, ending? := some e }
      else (m.processes.get? other).map (Process.orphan pid) := by
  show ((m.processes.map (Process.orphan pid)).modify pid _).get? other = _
  rw [Table.get?_modify, Table.get?_map, Table.get?_map, Option.map_map]
  rfl

namespace Effect

variable {q : Pid} {m m' : Machine α} {l : List Pid}

theorem nextPid_le (h : Effect q m l m') : m.nextPid ≤ m'.nextPid := by
  induction h with
  | trans _ _ ih ih' => exact Nat.le_trans ih ih'
  | storage h => exact Nat.le_of_eq h.nextPid.symm
  | fork => exact Nat.le_succ _
  | refl | own | finish | stop | collect => exact Nat.le_refl _

theorem installed (h : Effect q m l m') : m'.installed = m.installed := by
  induction h with
  | trans _ _ ih ih' => exact ih'.trans ih
  | storage h => exact h.installed
  | refl | own | finish | stop | collect | fork => rfl

theorem knows (h : Effect q m l m') {handle : Handle} (hk : m.Knows handle) : m'.Knows handle := by
  induction h with
  | trans _ _ ih ih' => exact ih' (ih hk)
  | storage h => exact h.knows handle hk
  | refl | own | finish | stop | collect | fork => cases handle <;> exact hk

theorem anonymous (h : Effect q m l m') {number : Nat} (hk : m.Knows (.readEnd number))
    (hn : ∀ id, m.fifos.get? id ≠ some number) : ∀ id, m'.fifos.get? id ≠ some number := by
  induction h with
  | trans first _ ih ih' => exact ih' (first.knows hk) (ih hk hn)
  | storage h =>
    intro id hf
    rcases h.fifos id number hf with hold | hnew
    · exact hn id hold
    · exact hnew.1 hk
  | refl | own | finish | stop | collect | fork => exact hn

end Effect

private theorem sound_set {m : Machine α} {s n : Pid}
    {p' : Process α} (hs : m.Sound) (hn : m.nextPid ≤ n)
    (hnumber : s < n ∧ p'.parent < n) (hknown : ∀ h ∈ p'.descriptors.values, m.Knows h) :
    Sound { m with processes := m.processes.set s p', nextPid := n } where
  numbered := by
    intro pid p h
    have h : (m.processes.set s p').get? pid = some p := h
    show pid < n ∧ p.parent < n
    rw [Table.get?_set] at h
    split at h
    · rename_i he
      cases h
      exact he ▸ hnumber
    · have hold := hs.numbered pid p h
      exact ⟨Nat.lt_of_lt_of_le hold.1 hn, Nat.lt_of_lt_of_le hold.2 hn⟩
  known := by
    intro pid p h handle hm
    have h : (m.processes.set s p').get? pid = some p := h
    have hknows : m.Knows handle := by
      rw [Table.get?_set] at h
      split at h
      · cases h
        exact hknown handle hm
      · exact hs.known pid p h handle hm
    cases handle <;> exact hknows
  fifos := hs.fifos

theorem exists_of_finish {m : Machine α} {r pid : Pid} {e : Ending} {p' : Process α}
    (h : (m.finish r e).processes.get? pid = some p') :
    ∃ p, m.processes.get? pid = some p ∧ (p'.parent = p.parent ∨ p'.parent = 0) ∧
      ∀ handle ∈ p'.descriptors.values, handle ∈ p.descriptors.values := by
  have horphan (p : Process α) : (p.orphan r).parent = p.parent ∨ (p.orphan r).parent = 0 := by
    unfold Process.orphan
    split
    · exact .inr rfl
    · exact .inl rfl
  rw [get?_finish] at h
  split at h
  · rename_i heq
    obtain ⟨p, hp, rfl⟩ := Option.map_eq_some_iff.mp h
    exact ⟨p, heq ▸ hp, horphan p, fun _ hm => absurd hm (by simp [Table.values])⟩
  · obtain ⟨p, hp, rfl⟩ := Option.map_eq_some_iff.mp h
    refine ⟨p, hp, horphan p, ?_⟩
    unfold Process.orphan
    split <;> exact fun _ hm => hm

namespace Effect

variable {q : Pid} {m m' : Machine α} {l : List Pid}

theorem sound (h : Effect q m l m') (hs : m.Sound) : m'.Sound := by
  induction h with
  | refl => exact hs
  | trans _ _ ih ih' => exact ih' (ih hs)
  | storage h =>
    refine ⟨?_, ?_, ?_⟩
    · intro pid p hp
      rw [h.processes] at hp
      rw [h.nextPid]
      exact hs.numbered pid p hp
    · intro pid p hp handle hm
      rw [h.processes] at hp
      exact h.knows handle (hs.known pid p hp handle hm)
    · intro id number hf
      rcases h.fifos id number hf with hold | hnew
      · exact h.knows _ (hs.fifos id number hold)
      · exact hnew.2
  | @own m p p' h hown =>
    have hp := hs.numbered q p h
    refine sound_set hs (Nat.le_refl _) ⟨hp.1, hown.parent ▸ hp.2⟩ fun handle hm => ?_
    rcases hown.knows handle hm with hold | hnew
    · exact hs.known q p h handle hold
    · exact hnew
  | @finish m r p e h _ _ =>
    refine ⟨fun pid p' hp' => ?_, fun pid p' hp' handle hm => ?_, hs.fifos⟩
    · obtain ⟨p, hp, hparent, -⟩ := exists_of_finish hp'
      have hn := hs.numbered pid p hp
      refine ⟨hn.1, ?_⟩
      rcases hparent with hparent | hparent
      · rw [hparent]
        exact hn.2
      · rw [hparent]
        exact Nat.lt_of_le_of_lt (Nat.zero_le pid) hn.1
    · obtain ⟨p, hp, -, hd⟩ := exists_of_finish hp'
      have hk := hs.known pid p hp handle (hd handle hm)
      cases handle <;> exact hk
  | @stop m r p h => exact sound_set hs (Nat.le_refl _) (hs.numbered r p h) (hs.known r p h)
  | @collect m r c h _ _ =>
    have hold (pid : Pid) (p : Process α) (hp : (m.processes.erase r).get? pid = some p) :
        m.processes.get? pid = some p := by
      rw [Table.get?_erase] at hp
      split at hp
      · cases hp
      · exact hp
    refine ⟨fun pid p hp => hs.numbered pid p (hold pid p hp),
      fun pid p hp handle hm => ?_, hs.fifos⟩
    have hk := hs.known pid p (hold pid p hp) handle hm
    cases handle <;> exact hk
  | @fork m p child h =>
    have hp := hs.numbered q p h
    exact sound_set hs (Nat.le_succ _) ⟨Nat.lt_succ_self _, Nat.lt_succ_of_lt hp.1⟩ (hs.known q p h)

end Effect

/-- What processes other than the acting one, and the acting one's children, can rely on. -/
structure Frame (q : Pid) (l : List Pid) (m m' : Machine α) : Prop where
  /-- Numbers are not used again. -/
  absent : ∀ r, r < m.nextPid → m.processes.get? r = none → m'.processes.get? r = none
  /-- An ending stays what it is until it is collected. -/
  ended : ∀ r p e, m.processes.get? r = some p → p.ending? = some e →
    m'.processes.get? r = none ∨ ∃ p', m'.processes.get? r = some p' ∧ p'.ending? = some e
  /-- Nobody but a process itself changes it, short of ending it. -/
  others : ∀ r p, r ≠ q → m.processes.get? r = some p →
    m'.processes.get? r = none ∨ ∃ p', m'.processes.get? r = some p' ∧ (p.Struck p' ∨ p.Same p')
  /-- A program that was loaded is not unloaded. -/
  loaded : ∀ r p, m.processes.get? r = some p → p.loaded = true →
    m'.processes.get? r = none ∨ ∃ p', m'.processes.get? r = some p' ∧ p'.loaded = true
  /-- A child stays with its parent as long as that lives and does not take it away. -/
  custody : ∀ r p, m.processes.get? r = some p → r ∉ l → m'.Alive p.parent →
    ∃ p', m'.processes.get? r = some p' ∧ p'.parent = p.parent

/-- What a single effect can mean for the process with a given number. -/
inductive Fate (q : Pid) (l : List Pid) (m m' : Machine α) (r : Pid) : Prop
  | kept (h : m'.processes.get? r = m.processes.get? r)
  | changed {p p' : Process α} (h : m.processes.get? r = some p)
      (h' : m'.processes.get? r = some p') (ending : p'.ending? = p.ending? ∨ p.ending? = none)
      (same : r = q ∨ p.Struck p' ∨ p.Same p') (loaded : p.loaded = true → p'.loaded = true)
      (parent : p'.parent = p.parent ∨ ¬ m'.Alive p.parent)
  | gone {p : Process α} (h : m.processes.get? r = some p)
      (h' : m'.processes.get? r = none) (taken : r ∈ l)
  | new (h : m.processes.get? r = none) (hr : m.nextPid ≤ r)

private theorem frame_of_fates {q : Pid} {l : List Pid} {m m' : Machine α}
    (h : ∀ r, Fate q l m m' r) : Frame q l m m' where
  absent r hr hn := by
    cases h r with
    | kept h => rw [h, hn]
    | changed h => exact absurd (hn.symm.trans h) (by simp)
    | gone h => exact absurd (hn.symm.trans h) (by simp)
    | new _ hle => exact absurd hr (Nat.not_lt.mpr hle)
  ended r p e hp he := by
    cases h r with
    | kept h => exact .inr ⟨p, h.trans hp, he⟩
    | @changed _ p' h h' ending =>
      cases hp.symm.trans h
      rcases ending with hsame | hnone
      · exact .inr ⟨p', h', hsame.trans he⟩
      · exact absurd (he.symm.trans hnone) (by simp)
    | gone _ h' => exact .inl h'
    | new hn => exact absurd (hn.symm.trans hp) (by simp)
  others r p hr hp := by
    cases h r with
    | kept h => exact .inr ⟨p, h.trans hp, .inr (.refl p)⟩
    | @changed _ p' h h' _ same =>
      cases hp.symm.trans h
      rcases same with hq | hrest
      · exact absurd hq hr
      · exact .inr ⟨p', h', hrest⟩
    | gone _ h' => exact .inl h'
    | new hn => exact absurd (hn.symm.trans hp) (by simp)
  loaded r p hp hl := by
    cases h r with
    | kept h => exact .inr ⟨p, h.trans hp, hl⟩
    | @changed _ p' h h' _ _ loaded =>
      cases hp.symm.trans h
      exact .inr ⟨p', h', loaded hl⟩
    | gone _ h' => exact .inl h'
    | new hn => exact absurd (hn.symm.trans hp) (by simp)
  custody r p hp hl halive := by
    cases h r with
    | kept h => exact ⟨p, h.trans hp, rfl⟩
    | @changed _ p' h h' _ _ _ parent =>
      cases hp.symm.trans h
      rcases parent with hsame | hdead
      · exact ⟨p', h', hsame⟩
      · exact absurd halive hdead
    | gone _ _ taken => exact absurd taken hl
    | new hn => exact absurd (hn.symm.trans hp) (by simp)

namespace Frame

variable {q : Pid} {m m' m'' : Machine α} {l l' : List Pid}

theorem alive (h : Frame q l m m') {r : Pid} (hr : r < m.nextPid) (halive : m'.Alive r) :
    m.Alive r := by
  obtain ⟨p', hp', hlive⟩ := halive
  cases hp : m.processes.get? r with
  | none => exact absurd ((h.absent r hr hp).symm.trans hp') (by simp)
  | some p =>
    cases he : p.ending? with
    | none => exact ⟨p, hp, he⟩
    | some e =>
      rcases h.ended r p e hp he with hnone | ⟨p'', hp'', hend⟩
      · exact absurd (hnone.symm.trans hp') (by simp)
      · cases hp'.symm.trans hp''
        exact absurd (hlive.symm.trans hend) (by simp)

theorem trans (h : Frame q l m m') (h' : Frame q l' m' m'') (hs : m.Sound)
    (hle : m.nextPid ≤ m'.nextPid) : Frame q (l ++ l') m m'' where
  absent r hr hn := h'.absent r (Nat.lt_of_lt_of_le hr hle) (h.absent r hr hn)
  ended r p e hp he := by
    have hr := Nat.lt_of_lt_of_le (hs.numbered r p hp).1 hle
    rcases h.ended r p e hp he with hnone | ⟨p', hp', he'⟩
    · exact .inl (h'.absent r hr hnone)
    · exact h'.ended r p' e hp' he'
  others r p hr hp := by
    have hlt := Nat.lt_of_lt_of_le (hs.numbered r p hp).1 hle
    rcases h.others r p hr hp with hnone | ⟨p', hp', hchanged⟩
    · exact .inl (h'.absent r hlt hnone)
    · rcases h'.others r p' hr hp' with hnone | ⟨p'', hp'', hchanged'⟩
      · exact .inl hnone
      · exact .inr ⟨p'', hp'', Process.struck_or_same_trans hchanged hchanged'⟩
  loaded r p hp hl := by
    have hr := Nat.lt_of_lt_of_le (hs.numbered r p hp).1 hle
    rcases h.loaded r p hp hl with hnone | ⟨p', hp', hl'⟩
    · exact .inl (h'.absent r hr hnone)
    · exact h'.loaded r p' hp' hl'
  custody r p hp hl halive := by
    obtain ⟨hl, hl'⟩ := not_or.mp (fun hm => hl (List.mem_append.mpr hm))
    have hparent := Nat.lt_of_lt_of_le (hs.numbered r p hp).2 hle
    obtain ⟨p', hp', heq⟩ := h.custody r p hp hl (h'.alive hparent halive)
    obtain ⟨p'', hp'', heq'⟩ := h'.custody r p' hp' hl' (heq ▸ halive)
    exact ⟨p'', hp'', heq'.trans heq⟩

end Frame

private theorem fate_set {q s : Pid} {m : Machine α}
    {p p' : Process α} (h : m.processes.get? s = some p)
    (hparent : p'.parent = p.parent) (hend : p'.ending? = p.ending?)
    (hloaded : p.loaded = true → p'.loaded = true) (hsame : s = q ∨ p.Same p') (r : Pid) :
    Fate q [] m { m with processes := m.processes.set s p' } r := by
  by_cases hr : r = s
  · subst hr
    refine .changed h (Table.get?_set_same _ _ _) (.inl hend) ?_ hloaded (.inl hparent)
    rcases hsame with hq | hsame
    · exact .inl hq
    · exact .inr (.inr hsame)
  · exact .kept (Table.get?_set_of_ne _ _ hr)

private theorem fate_finish {q s : Pid} {m : Machine α} {p : Process α} (e : Ending)
    (h : m.processes.get? s = some p) (hlive : p.ending? = none)
    (hwho : s = q ∨ ∃ number, e = .killed number) (r : Pid) : Fate q [] m (m.finish s e) r := by
  have hdead : ¬ (m.finish s e).Alive s := by
    rintro ⟨p', hp', hnone⟩
    rw [get?_finish, if_pos rfl, h] at hp'
    cases hp'
    cases hnone
  have hparent (p : Process α) : (p.orphan s).parent = p.parent ∨
      ¬ (m.finish s e).Alive p.parent := by
    by_cases he : p.parent = s
    · exact .inr (he ▸ hdead)
    · exact .inl (congrArg Process.parent (Process.orphan_parent he))
  have hloaded (p : Process α) (hl : p.loaded = true) : (p.orphan s).loaded = true := by
    obtain ⟨_, _, heq⟩ := p.orphan_same s
    rw [heq]
    exact hl
  cases hp : m.processes.get? r with
  | none =>
    refine .kept ?_
    rw [get?_finish, hp]
    split
    · rename_i he
      rw [← he, hp]
      rfl
    · rfl
  | some p' =>
    by_cases hr : r = s
    · subst hr
      cases hp.symm.trans h
      have hp' := get?_finish m r r e
      rw [if_pos rfl, h] at hp'
      refine .changed hp hp' (.inr hlive) (hwho.imp_right ?_) (hloaded p) (hparent p)
      rintro ⟨number, rfl⟩
      obtain ⟨hdirectory, hprogram⟩ := p.orphan_keeps r
      exact .inl ⟨hdirectory, hprogram, number, rfl⟩
    · have hp' := get?_finish m s r e
      rw [if_neg hr, hp] at hp'
      have hsame := p'.orphan_same s
      refine .changed hp hp' (.inl ?_) (.inr (.inr hsame)) (hloaded p') (hparent p')
      obtain ⟨_, _, heq⟩ := hsame
      rw [heq]

/-- What an effect leaves alone. -/
theorem Effect.frame {q : Pid} {m m' : Machine α} {l : List Pid} (h : Effect q m l m')
    (hs : m.Sound) : Frame q l m m' := by
  induction h with
  | refl m => exact frame_of_fates fun _ => .kept rfl
  | trans first second ih ih' => exact (ih hs).trans (ih' (first.sound hs)) hs first.nextPid_le
  | storage h => exact frame_of_fates fun r => .kept (by rw [h.processes])
  | own h hown => exact frame_of_fates (fate_set h hown.parent hown.ending hown.loaded (.inl rfl))
  | finish e h hlive hwho => exact frame_of_fates (fate_finish e h hlive hwho)
  | @stop m r p h =>
    exact frame_of_fates (fate_set h rfl rfl (fun h => h) (.inr ⟨p.parent, true, rfl⟩))
  | @collect m s c h =>
    refine frame_of_fates fun r => ?_
    by_cases hr : r = s
    · subst hr
      exact .gone h (Table.get?_erase_same _ _) (List.mem_singleton.mpr rfl)
    · exact .kept (Table.get?_erase_of_ne _ hr)
  | @fork m p child h =>
    refine frame_of_fates fun r => ?_
    by_cases hr : r = m.nextPid
    · refine .new ?_ (Nat.le_of_eq hr.symm)
      cases hp : m.processes.get? r with
      | none => rfl
      | some p => exact absurd (hr ▸ (hs.numbered r p hp).1) (Nat.lt_irrefl _)
    · exact .kept (Table.get?_set_of_ne _ _ hr)

end Machine

end PipeShell
