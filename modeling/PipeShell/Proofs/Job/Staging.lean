import PipeShell.Proofs.Job.Scene

/-!
What holds throughout a performance: who the processes are, and what has come through every pipe. It
is kept stage by stage, so that a step of one process has to be looked at for the stages next to it
only.
-/

set_option autoImplicit false
set_option relaxedAutoImplicit false

namespace PipeShell.Scene

open Machine (Touches)

def Only (q : Pid) (m m' : Machine Report) : Prop :=
  ∀ r, r ≠ q → m'.processes.get? r = m.processes.get? r ∨
    m'.processes.get? r = (m.processes.get? r).map (Process.orphan q)

def Concludes (s : Scene) (r : Report) (g : Pipeline.Attendance) : Prop :=
  r = .outcome ⟨.ok ((s.code s.last).toNat : Int), s.background⟩ ∧ ∀ c ∈ g.children, c ∈ g.collected

/-- The interpreter goes on with so many calls left at most, the stages that were started are as far
as is said, those that were collected are gone, and everybody else has the descriptors that he
had. -/
structure Peopled (s : Scene) (ph : Nat → Phase) (left : Nat) (collected : List Pid)
    (pipes : List Nat) (kids : List Pid) (m : Machine Report) : Prop where
  interpreter : ∃ p, m.processes.get? s.pid = some p ∧ s.Fit p ∧ p.program.Honours
    (Pipeline.conduct s.stages.length (s.code s.last)) s.Concludes ⟨kids, collected, left⟩
  children : ∀ k q, kids[k]? = some q → s.At pipes collected k q (ph k) (m.processes.get? q)
  pending : ∀ k, kids.length ≤ k → ph k = .pending
  others : ∀ r p, r ≠ s.pid → r ∉ kids → m.processes.get? r = some p →
    ∃ p', s.machine.processes.get? r = some p' ∧ p.descriptors = p'.descriptors
  bystanders : ∀ r p, r ≠ s.pid → s.machine.processes.get? r = some p → r ∉ kids ∧
    ∃ p', m.processes.get? r = some p' ∧ p'.descriptors = p.descriptors
  gone : ∀ c ∈ collected, c ∈ kids ∧ m.processes.get? c = none

section

variable {s : Scene} {ph : Nat → Phase} {left : Nat} {collected : List Pid} {pipes : List Nat}
  {kids : List Pid} {m m' : Machine Report} {k : Nat} {q : Pid} {φ : Phase}

theorem At.parent {p? : Option (Process Report)} (h : s.At pipes collected k q φ p?)
    {p : Process Report} (hp : p? = some p) : p.parent = s.pid := by
  cases φ with
  | pending => exact h.elim
  | wiring n =>
    obtain ⟨_, _, rfl, -, hparent, -⟩ := h
    cases hp
    exact hparent
  | reading inlet outlet seen =>
    obtain ⟨_, rfl, hplugged, -⟩ := h
    cases hp
    exact hplugged.parent
  | writing inlet outlet =>
    obtain ⟨_, rfl, hplugged, -⟩ := h
    cases hp
    exact hplugged.parent
  | leaving inlet outlet =>
    obtain ⟨_, rfl, hplugged, -⟩ := h
    cases hp
    exact hplugged.parent
  | ended =>
    rcases h with ⟨-, rfl⟩ | ⟨_, rfl, hparent, -⟩
    · cases hp
    · cases hp
      exact hparent

theorem At.only {r : Pid} (h : s.At pipes collected k r φ (m.processes.get? r)) (hq : q ≠ s.pid)
    (hr : r ≠ q) (honly : Only q m m') : s.At pipes collected k r φ (m'.processes.get? r) := by
  have hsame : m'.processes.get? r = m.processes.get? r := by
    rcases honly r hr with heq | heq
    · exact heq
    · cases hp : m.processes.get? r with
      | none => rw [heq, hp, Option.map_none]
      | some p =>
        have hparent := h.parent hp
        rw [heq, hp, Option.map_some, Process.orphan_parent (hparent ▸ hq.symm)]
  rw [hsame]
  exact h

theorem Fit.orphan {p : Process Report} (h : s.Fit p) (q : Pid) : s.Fit (p.orphan q) := by
  unfold Process.orphan
  split
  · exact ⟨h.lives, h.calm, h.standing, h.complaints⟩
  · exact h

/-- When a child makes a step, only that child has to be looked at. -/
theorem Peopled.kid (h : s.Peopled ph left collected pipes kids m)
    (hdistinct : (s.pid :: kids).Nodup) (hk : kids[k]? = some q)
    {p : Process Report} (hp : m.processes.get? q = some p) (honly : Only q m m')
    (hat : s.At pipes collected k q φ (m'.processes.get? q)) :
    s.Peopled (Function.update ph k φ) left collected pipes kids m' := by
  obtain ⟨hout, hnodup⟩ := List.nodup_cons.mp hdistinct
  have hmem := List.mem_of_getElem? hk
  have hq : q ≠ s.pid := fun he => hout (he ▸ hmem)
  constructor
  · obtain ⟨p, hp, hfit, hhonours⟩ := h.interpreter
    rcases honly s.pid hq.symm with heq | heq
    · exact ⟨p, heq.trans hp, hfit, hhonours⟩
    · refine ⟨p.orphan q, by rw [heq, hp, Option.map_some], hfit.orphan q, ?_⟩
      have hprogram : (p.orphan q).program = p.program := by
        unfold Process.orphan
        split <;> rfl
      rw [hprogram]
      exact hhonours
  · intro j r hj
    by_cases hjk : j = k
    · subst hjk
      cases hj.symm.trans hk
      rw [Function.update_self]
      exact hat
    · have hr : r ≠ q := by
        rintro rfl
        exact hjk ((List.getElem?_inj (List.getElem?_eq_some_iff.mp hj).1 hnodup).mp
          (hj.trans hk.symm))
      rw [Function.update_of_ne hjk]
      exact (h.children j r hj).only hq hr honly
  · intro j hj
    have hjk : j ≠ k := by
      have := (List.getElem?_eq_some_iff.mp hk).1
      omega
    rw [Function.update_of_ne hjk]
    exact h.pending j hj
  · intro r p hr hout' hp
    have hrq : r ≠ q := fun he => hout' (he ▸ hmem)
    rcases honly r hrq with heq | heq
    · exact h.others r p hr hout' (heq ▸ hp)
    · rw [heq, Option.map_eq_some_iff] at hp
      obtain ⟨p₁, hp₁, rfl⟩ := hp
      obtain ⟨p', hp', hdescriptors⟩ := h.others r p₁ hr hout' hp₁
      refine ⟨p', hp', ?_⟩
      rw [← hdescriptors]
      unfold Process.orphan
      split <;> rfl
  · intro r p₀ hr hp₀
    obtain ⟨hout', p₁, hp₁, hdescriptors⟩ := h.bystanders r p₀ hr hp₀
    refine ⟨hout', ?_⟩
    rcases honly r fun he => hout' (he ▸ hmem) with heq | heq
    · exact ⟨p₁, heq.trans hp₁, hdescriptors⟩
    · refine ⟨p₁.orphan q, by rw [heq, hp₁, Option.map_some], ?_⟩
      rw [← hdescriptors]
      unfold Process.orphan
      split <;> rfl
  · intro c hc
    obtain ⟨hkid, hnone⟩ := h.gone c hc
    have hcq : c ≠ q := by
      rintro rfl
      exact absurd (hnone.symm.trans hp) (by simp)
    refine ⟨hkid, ?_⟩
    rcases honly c hcq with heq | heq
    · exact heq.trans hnone
    · rw [heq, hnone, Option.map_none]

end

def Supplies (s : Scene) (pipes : List Nat) (m : Machine Report) (k : Nat) (h : Handle)
    (rest : Bytes) : Prop :=
  m.Offers s.source h rest ∧
    match k with
    | 0 => ∃ n, h = .file n
    | j + 1 => ∃ n, pipes[j]? = some n ∧ h = .readEnd n

def Inlet (s : Scene) (pipes : List Nat) (opened : Nat → List Opening) : Nat → Handle → Prop
  | 0, h =>
    (∃ stage, s.stages.head? = some stage ∧ stage.inputFile = none ∧ s.base Fd.input = some h) ∨
      ∃ o ∈ opened 0, o.access = .read ∧ o.handle = h
  | j + 1, h => ∃ n, pipes[j]? = some n ∧ h = .readEnd n

def Outlet (s : Scene) (opened : Nat → List Opening) (h : Handle) : Prop :=
  (∃ stage, s.stages.getLast? = some stage ∧ stage.outputFile = none ∧ s.base Fd.output = some h) ∨
    ∃ o ∈ opened s.last, (∃ mode, o.access = .replace mode) ∧ o.handle = h

/-- What a stage has read and what is left for it to read make up what has arrived. -/
structure Supplied (s : Scene) (ph : Nat → Phase) (pipes : List Nat) (opened : Nat → List Opening)
    (m : Machine Report) (k : Nat) : Prop where
  early : s.fate k = none → (ph k).Early → ∀ h, s.Inlet pipes opened k h →
    s.Supplies pipes m k h (s.arrived ph k)
  reading : ∀ inlet outlet seen, ph k = .reading inlet outlet seen →
    ∃ rest, s.Supplies pipes m k inlet rest ∧ seen ++ rest = s.arrived ph k

/-- What the last stage writes comes to stand behind what is in the output. If its program cannot be
run, that is so as well as long as it has something to write to. -/
structure Delivers (s : Scene) (ph : Nat → Phase) (opened : Nat → List Opening)
    (m : Machine Report) : Prop where
  early : (ph s.last).Early → ∀ h, s.Outlet opened h → s.Receiving m h
  running : ∀ inlet outlet seen, ph s.last = .reading inlet outlet seen ∨
    ph s.last = .writing inlet outlet → s.Receiving m outlet
  late : (ph s.last).Late → s.fate s.last = none ∨ (∃ h, s.Outlet opened h) →
    s.Gathers m (s.already ++ s.feed (s.last + 1))

/-- What does not change: pipes take everything, the file that is read stays what it is, and
complaints go neither there nor to the output. -/
structure Steady (s : Scene) (m : Machine Report) : Prop where
  unbounded : m.pipeCapacity? = none
  data : (m.tree.node s.source).content = .file s.data
  complaints : ∀ h, s.base Fd.complaints = some h → m.Avoids h s.source ∧ s.Clear m h ∧
    ∀ n, h = .file n → (m.openFiles.get? n).isSome

structure Flowing (s : Scene) (ph : Nat → Phase) (pipes : List Nat) (opened : Nat → List Opening)
    (m : Machine Report) : Prop where
  steady : s.Steady m
  supplied : ∀ k, s.Supplied ph pipes opened m k
  delivers : s.Delivers ph opened m

section

variable {s : Scene} {ph : Nat → Phase} {pipes : List Nat} {opened : Nat → List Opening}
  {m m' : Machine Report} {k : Nat} {φ : Phase} {x : Handle}

theorem avoids_touches {h : Handle} {node : NodeId} (ht : Touches x m m')
    (havoids : m.Avoids h node) (hknown : ∀ n, h = .file n → (m.openFiles.get? n).isSome) :
    m'.Avoids h node := by
  intro n file' hn hfile'
  obtain ⟨file, hfile⟩ := Option.isSome_iff_exists.mp (hknown n hn)
  obtain ⟨file₁, hfile₁, hnode⟩ := ht.bound n file hfile
  cases hfile'.symm.trans hfile₁
  rw [hnode]
  exact havoids n file hn hfile

theorem clear_touches {h : Handle} (ht : Touches x m m') (hclear : s.Clear m h)
    (hknown : ∀ n, h = .file n → (m.openFiles.get? n).isSome) : s.Clear m' h := by
  unfold Clear at hclear ⊢
  cases hdrain : s.drain? with
  | none =>
    simp only [hdrain] at hclear
    exact avoids_touches ht hclear hknown
  | some n =>
    simp only [hdrain] at hclear
    exact hclear

theorem Gathers.touches {data : Bytes} (h : s.Gathers m data) (ht : Touches x m m')
    (hclear : s.Clear m x) : s.Gathers m' data := by
  unfold Gathers at h ⊢
  unfold Clear at hclear
  cases hdrain : s.drain? with
  | none =>
    simp only [hdrain] at h hclear ⊢
    exact (ht.content hclear).trans h
  | some n =>
    simp only [hdrain] at h hclear ⊢
    rw [ht.pipes n hclear.1 hclear.2]
    exact h

theorem Receiving.touches {y : Handle} (h : s.Receiving m y) (ht : Touches x m m')
    (hclear : s.Clear m x) : s.Receiving m' y := by
  unfold Receiving at h ⊢
  unfold Clear at hclear
  cases hdrain : s.drain? with
  | none =>
    simp only [hdrain] at h hclear ⊢
    exact ht.receives hclear h
  | some n =>
    simp only [hdrain] at h hclear ⊢
    rw [ht.pipes n hclear.1 hclear.2]
    exact h

theorem Receiving.drain {n : Nat} (h : s.Receiving m (.writeEnd n)) : s.drain? = some n := by
  unfold Receiving at h
  cases hdrain : s.drain? with
  | none =>
    simp only [hdrain] at h
    obtain ⟨number, file, _, he, -⟩ := h
    cases he
  | some n' =>
    simp only [hdrain] at h
    obtain ⟨he, -⟩ := h
    cases he
    rfl

theorem Receiving.gathers {y : Handle} (h : s.Receiving m y) : s.Gathers m s.already := by
  unfold Receiving at h
  unfold Gathers
  cases hdrain : s.drain? with
  | none =>
    simp only [hdrain] at h ⊢
    exact h.content
  | some n =>
    simp only [hdrain] at h ⊢
    exact h.2

theorem Steady.touches (h : s.Steady m) (ht : Touches x m m')
    (hdata : (m'.tree.node s.source).content = (m.tree.node s.source).content) : s.Steady m' where
  unbounded := ht.capacity.trans h.unbounded
  data := hdata.trans h.data
  complaints y hy := by
    obtain ⟨hsource, hsink, hknown⟩ := h.complaints y hy
    refine ⟨avoids_touches ht hsource hknown, clear_touches ht hsink hknown, fun n hn => ?_⟩
    obtain ⟨file, hfile⟩ := Option.isSome_iff_exists.mp (hknown n hn)
    obtain ⟨file', hfile', -⟩ := ht.bound n file hfile
    simp [hfile']

theorem Supplies.touches {h : Handle} {rest : Bytes}
    (hs : s.Supplies pipes m k h rest) (ht : Touches x m m')
    (hpipe : ∀ j n, k = j + 1 → pipes[j]? = some n → x ≠ .readEnd n ∧ x ≠ .writeEnd n)
    (hfile : k = 0 → m.Avoids x s.source) : s.Supplies pipes m' k h rest := by
  obtain ⟨hoffers, hwhere⟩ := hs
  refine ⟨ht.offers (fun n hn => ?_) (fun n hn => ?_) hoffers, hwhere⟩
  · cases k with
    | zero =>
      obtain ⟨n', rfl⟩ := hwhere
      cases hn
    | succ j =>
      obtain ⟨n', hn', rfl⟩ := hwhere
      cases hn
      exact hpipe j _ rfl hn'
  · cases k with
    | zero => exact hfile rfl
    | succ j =>
      obtain ⟨n', hn', rfl⟩ := hwhere
      cases hn

theorem Supplied.transfer (h : s.Supplied ph pipes opened m k) {ph' : Nat → Phase}
    {opened' : Nat → List Opening} (hphase : ph' k = ph k ∨ (ph' k).Early ∧ (ph k).Early)
    (harrived : s.arrived ph' k = s.arrived ph k)
    (hinlet : ∀ y, s.Inlet pipes opened' k y → s.Inlet pipes opened k y)
    (hkeeps : ∀ y rest, s.Supplies pipes m k y rest → s.Supplies pipes m' k y rest) :
    s.Supplied ph' pipes opened' m' k := by
  constructor
  · intro hfate hearly y hy
    have hearly' : (ph k).Early := by
      rcases hphase with heq | ⟨-, hearly'⟩
      · exact heq ▸ hearly
      · exact hearly'
    rw [harrived]
    exact hkeeps y _ (h.early hfate hearly' y (hinlet y hy))
  · intro inlet outlet seen hreading
    have hreading' : ph k = .reading inlet outlet seen := by
      rcases hphase with heq | ⟨hearly, -⟩
      · exact heq.symm.trans hreading
      · exact absurd hearly (by simp [hreading, Phase.Early])
    rw [harrived]
    obtain ⟨rest, hsupplies, hrest⟩ := h.reading inlet outlet seen hreading'
    exact ⟨rest, hkeeps inlet rest hsupplies, hrest⟩

theorem Delivers.transfer (h : s.Delivers ph opened m)
    {ph' : Nat → Phase} {opened' : Nat → List Opening}
    (hphase : ph' s.last = ph s.last ∨ (ph' s.last).Early ∧ (ph s.last).Early)
    (houtlet : ∀ y, s.Outlet opened' y → s.Outlet opened y)
    (hkeeps : ∀ y, s.Receiving m y → s.Receiving m' y)
    (hgathers : ∀ data, s.Gathers m data → s.Gathers m' data) : s.Delivers ph' opened' m' := by
  constructor
  · intro hearly y hy
    have hearly' : (ph s.last).Early := by
      rcases hphase with heq | ⟨-, hearly'⟩
      · exact heq ▸ hearly
      · exact hearly'
    exact hkeeps y (h.early hearly' y (houtlet y hy))
  · intro inlet outlet seen hrunning
    rcases hphase with heq | ⟨hearly, -⟩
    · rw [heq] at hrunning
      exact hkeeps outlet (h.running inlet outlet seen hrunning)
    · rcases hrunning with hrunning | hrunning
      · exact absurd hearly (by simp [hrunning, Phase.Early])
      · exact absurd hearly (by simp [hrunning, Phase.Early])
  · intro hlate hdone
    rcases hphase with heq | ⟨hearly, -⟩
    · rw [heq] at hlate
      exact hgathers _ (h.late hlate (hdone.imp_right fun ⟨y, hy⟩ => ⟨y, houtlet y hy⟩))
    · cases hlast : ph' s.last with
      | pending => exact absurd hlate (by simp [hlast, Phase.Late])
      | wiring n => exact absurd hlate (by simp [hlast, Phase.Late])
      | _ => exact absurd hearly (by simp [hlast, Phase.Early])

theorem arrived_update (hemitted : s.emitted k φ = s.emitted k (ph k)) (j : Nat) :
    s.arrived (Function.update ph k φ) j = s.arrived ph j := by
  cases j with
  | zero => rfl
  | succ j =>
    by_cases hj : j = k
    · subst hj
      simp only [arrived, Function.update_self]
      exact hemitted
    · simp only [arrived, Function.update_of_ne hj]

theorem Flowing.kid (h : s.Flowing ph pipes opened m) (ht : Touches x m m')
    (hemitted : s.emitted k φ = s.emitted k (ph k))
    (hpipe : ∀ j n, j + 1 ≠ k → pipes[j]? = some n → x ≠ .readEnd n ∧ x ≠ .writeEnd n)
    (hsource : k = 0 ∨ m.Avoids x s.source)
    (hdata : (m'.tree.node s.source).content = (m.tree.node s.source).content)
    (hsink : k = s.last ∨ s.Clear m x)
    (hsupplied : s.Supplied (Function.update ph k φ) pipes opened m' k)
    (hdelivers : k = s.last → s.Delivers (Function.update ph k φ) opened m') :
    s.Flowing (Function.update ph k φ) pipes opened m' := by
  refine ⟨h.steady.touches ht hdata, fun j => ?_, ?_⟩
  · by_cases hj : j = k
    · subst hj
      exact hsupplied
    · refine (h.supplied j).transfer (.inl (Function.update_of_ne hj _ _))
        (arrived_update hemitted j) (fun _ hy => hy) fun y rest hy => hy.touches ht ?_ ?_
      · rintro i n rfl hn
        exact hpipe i n hj hn
      · rintro rfl
        rcases hsource with hk | havoids
        · exact absurd hk.symm hj
        · exact havoids
  · rcases hsink with hk | hclear
    · exact hdelivers hk
    · by_cases hk : k = s.last
      · exact hdelivers hk
      · exact h.delivers.transfer (.inl (Function.update_of_ne (Ne.symm hk) _ _)) (fun _ hy => hy)
          (fun _ hy => hy.touches ht hclear) (fun _ hdata => hdata.touches ht hclear)

theorem emitted_of_early (h : φ.Early) : s.emitted k φ = [] := by
  cases φ with
  | pending => rfl
  | wiring n => rfl
  | _ => exact h.elim

theorem Flowing.transfer (h : s.Flowing ph pipes opened m) (ht : Touches x m m')
    (hpipes : ∀ j n : Nat, pipes[j]? = some n → x ≠ .readEnd n ∧ x ≠ .writeEnd n)
    (hsource : m.Avoids x s.source) (hsink : s.Clear m x) {ph' : Nat → Phase}
    (hphase : ∀ j, ph' j = ph j ∨ (ph' j).Early ∧ (ph j).Early) :
    s.Flowing ph' pipes opened m' := by
  have harrived (j : Nat) : s.arrived ph' j = s.arrived ph j := by
    cases j with
    | zero => rfl
    | succ j =>
      rcases hphase j with heq | ⟨hearly', hearly⟩
      · simp only [arrived, heq]
      · simp only [arrived, emitted_of_early hearly', emitted_of_early hearly]
  refine ⟨h.steady.touches ht (ht.content hsource), fun j => ?_, ?_⟩
  · exact (h.supplied j).transfer (hphase j) (harrived j) (fun _ hy => hy)
      fun y rest hy => hy.touches ht (fun i n _ hn => hpipes i n hn) fun _ => hsource
  · exact h.delivers.transfer (hphase s.last) (fun _ hy => hy) (fun _ hy => hy.touches ht hsink)
      fun _ hdata => hdata.touches ht hsink

theorem supplied_of_not {ph : Nat → Phase} (hearly : ¬ (ph k).Early)
    (hreading : ∀ inlet outlet seen, ph k ≠ .reading inlet outlet seen) :
    s.Supplied ph pipes opened m k :=
  ⟨fun _ h => absurd h hearly, fun inlet outlet seen h => absurd h (hreading inlet outlet seen)⟩

end

end PipeShell.Scene
