import PipeShell.Settings

/-!
Command lines that give settings. They are made of items, each of which is a switch or an option
with its value, and a mark may end them; what they set depends only on which items there are.
-/

set_option autoImplicit false
set_option relaxedAutoImplicit false

namespace PipeShell

namespace Log.Verbosity

/-- A text names a verbosity if it is its name up to the case of ASCII letters. -/
def Names (v : Verbosity) (text : String) : Prop :=
  text.toList.map Char.toUpper = v.name.toList.map Char.toUpper

instance (v : Verbosity) (text : String) : Decidable (Names v text) :=
  inferInstanceAs (Decidable (_ = _))

theorem mem_all (v : Verbosity) : v ∈ all := by
  rcases v with _ | ⟨_ | _⟩ <;> decide

theorem name_upper : ∀ v ∈ all, v.name.toList.map Char.toUpper = v.name.toList := by
  decide

theorem find_name : ∀ v ∈ all, all.find? (fun w => w.name.toList = v.name.toList) = some v := by
  decide

theorem ofName?_eq_some_iff {text : String} {v : Verbosity} :
    ofName? text = some v ↔ v.Names text := by
  unfold Names
  rw [name_upper v (mem_all v)]
  constructor
  · intro h
    have hname := List.find?_some h
    exact (of_decide_eq_true hname).symm
  · intro h
    unfold ofName?
    rw [h]
    exact find_name v (mem_all v)

end Log.Verbosity

namespace Settings

open Log (Verbosity)

inductive Item
  | shortSwitch
  | longSwitch
  | level (value : String)
  deriving DecidableEq, Repr

def Item.words : Item → List String
  | shortSwitch => ["-t"]
  | longSwitch => ["--single-shot"]
  | level value => ["--log-level", value]

def Item.isSwitch : Item → Bool
  | level _ => false
  | _ => true

def Item.value? : Item → Option String
  | level value => some value
  | _ => none

def values (items : List Item) : List String := items.filterMap Item.value?

/-- A command line of items, perhaps with the mark that ends the options. -/
def spell (items : List Item) (ended : Bool) : List String :=
  items.flatMap Item.words ++ if ended then ["--"] else []

theorem values_switch {item : Item} (hitem : item.isSwitch = true) (items : List Item) :
    values (item :: items) = values items := by
  cases item with
  | level value => cases hitem
  | shortSwitch => rfl
  | longSwitch => rfl

theorem mem_values {items : List Item} {value : String} :
    value ∈ values items ↔ .level value ∈ items := by
  unfold values
  rw [List.mem_filterMap]
  constructor
  · rintro ⟨item, hitem, hvalue⟩
    cases item with
    | shortSwitch => cases hvalue
    | longSwitch => cases hvalue
    | level v =>
      obtain rfl := Option.some.inj hvalue
      exact hitem
  · intro h
    exact ⟨_, h, rfl⟩

/-- There is one value at most, and values are names. -/
def Valid (items : List Item) : Prop :=
  (values items).length ≤ 1 ∧ ∀ value, .level value ∈ items → ∃ v : Verbosity, v.Names value

/-! ### Reading items -/

def Progress.Plain (p : Progress) : Prop := p.helpSeen = false ∧ p.optionsEnded = false

theorem readFrom_switch {p : Progress} (hp : p.Plain) {item : Item} (hitem : item.isSwitch = true)
    (rest : List String) :
    readFrom p (item.words ++ rest) = readFrom { p with singleShot := true } rest := by
  obtain ⟨hhelp, hended⟩ := hp
  obtain ⟨word, hword, hwords⟩ : ∃ word, (word = "-t" ∨ word = "--single-shot") ∧
      item.words = [word] := by
    cases item with
    | shortSwitch => exact ⟨_, .inl rfl, rfl⟩
    | longSwitch => exact ⟨_, .inr rfl, rfl⟩
    | level value => cases hitem
  rw [hwords, List.singleton_append, readFrom.eq_def]
  dsimp only
  rw [hhelp, hended]
  rcases hword with rfl | rfl <;>
    rw [if_neg (by decide), if_neg (by decide), if_neg (by decide), if_neg (by decide),
      if_pos (by decide)]

theorem readFrom_level {p : Progress} (hp : p.Plain) (value : String) (rest : List String) :
    readFrom p ((Item.level value).words ++ rest) =
      if p.verbosity?.isSome then .error (.valueRepeated value)
      else match Verbosity.ofName? value with
        | none => .error (.valueUnknown value)
        | some verbosity => readFrom { p with verbosity? := some verbosity } rest := by
  obtain ⟨hhelp, hended⟩ := hp
  unfold Item.words
  rw [List.cons_append, List.singleton_append, readFrom.eq_def]
  dsimp only
  rw [hhelp, hended, if_neg (by decide), if_neg (by decide), if_neg (by decide), if_neg (by decide),
    if_neg (by decide)]
  exact if_pos rfl

/-- What items make of what was set before. -/
structure Takes (p : Progress) (items : List Item) (q : Progress) : Prop where
  helpSeen : q.helpSeen = p.helpSeen
  optionsEnded : q.optionsEnded = p.optionsEnded
  singleShot : q.singleShot = (p.singleShot || items.any Item.isSwitch)
  verbosity : ∃ named : List Verbosity, (values items).map Verbosity.ofName? = named.map some ∧
    q.verbosity?.toList = p.verbosity?.toList ++ named

theorem takes_nil {p q : Progress} : Takes p [] q ↔ q = p := by
  constructor
  · rintro ⟨hhelp, hended, hshot, named, hnamed, hverbosity⟩
    obtain rfl : named = [] := by simpa [values] using hnamed.symm
    rw [List.append_nil] at hverbosity
    rw [List.any_nil, Bool.or_false] at hshot
    obtain ⟨_, _, _, before⟩ := p
    obtain ⟨_, _, _, after⟩ := q
    cases before <;> cases after <;> simp_all
  · rintro rfl
    exact ⟨rfl, rfl, by simp, [], rfl, by simp⟩

theorem takes_switch {p q : Progress} {item : Item}
    (hitem : item.isSwitch = true) {items : List Item} :
    Takes p (item :: items) q ↔ Takes { p with singleShot := true } items q := by
  have hvalues := values_switch hitem items
  have hany : (p.singleShot || (item :: items).any Item.isSwitch) =
      (true || items.any Item.isSwitch) := by
    rw [List.any_cons, hitem, Bool.true_or, Bool.or_true]
  constructor
  · rintro ⟨hhelp, hended, hshot, hverbosity⟩
    exact ⟨hhelp, hended, hshot.trans hany, hvalues ▸ hverbosity⟩
  · rintro ⟨hhelp, hended, hshot, hverbosity⟩
    exact ⟨hhelp, hended, hshot.trans hany.symm, hvalues ▸ hverbosity⟩

theorem takes_level {p q : Progress} {value : String} {items : List Item} :
    Takes p (.level value :: items) q ↔ p.verbosity? = none ∧
    ∃ v, Verbosity.ofName? value = some v ∧ Takes { p with verbosity? := some v } items q := by
  constructor
  · rintro ⟨hhelp, hended, hshot, named, hnamed, hverbosity⟩
    cases named with
    | nil => cases hnamed
    | cons v named =>
      obtain ⟨hname, hnamed⟩ := List.cons.inj hnamed
      have hnone : p.verbosity? = none := by
        cases hp : p.verbosity? with
        | none => rfl
        | some w =>
          rw [hp] at hverbosity
          cases hq : q.verbosity? with
          | none =>
            rw [hq] at hverbosity
            cases hverbosity
          | some u =>
            rw [hq] at hverbosity
            cases hverbosity
      rw [hnone] at hverbosity
      exact ⟨hnone, v, hname, hhelp, hended, hshot, named, hnamed, hverbosity⟩
  · rintro ⟨hnone, v, hname, hhelp, hended, hshot, named, hnamed, hverbosity⟩
    refine ⟨hhelp, hended, hshot, v :: named, ?_, ?_⟩
    · exact congr (congrArg List.cons hname) hnamed
    · rw [hnone]
      exact hverbosity

theorem readFrom_items {p r : Progress} (hp : p.Plain) {items : List Item} {rest : List String} :
    readFrom p (items.flatMap Item.words ++ rest) = .ok r ↔ ∃ q, Takes p items q ∧
      readFrom q rest = .ok r := by
  induction items generalizing p with
  | nil =>
    simp only [takes_nil]
    exact ⟨fun h => ⟨p, rfl, h⟩, fun ⟨_, heq, h⟩ => heq ▸ h⟩
  | cons item items ih =>
    rw [List.flatMap_cons, List.append_assoc]
    by_cases hitem : item.isSwitch = true
    · have hplain : ({ p with singleShot := true } : Progress).Plain := hp
      rw [readFrom_switch hp hitem, ih hplain]
      simp only [takes_switch hitem]
    · cases item with
      | shortSwitch => exact absurd rfl hitem
      | longSwitch => exact absurd rfl hitem
      | level value =>
        rw [readFrom_level hp]
        simp only [takes_level]
        cases hverbosity : p.verbosity? with
        | some w => simp
        | none =>
          cases hname : Verbosity.ofName? value with
          | none => simp
          | some v =>
            have hplain : ({ p with verbosity? := some v } : Progress).Plain := hp
            simpa using ih hplain

/-! ### What else can be read -/

theorem eq_nil_of_ended {p q : Progress} {arguments : List String} (hended : p.optionsEnded = true)
    (h : readFrom p arguments = .ok q) : arguments = [] := by
  cases arguments with
  | nil => rfl
  | cons argument rest =>
    rw [readFrom.eq_def] at h
    dsimp only at h
    rw [if_pos hended] at h
    cases h

theorem helpSeen_of_readFrom {p q : Progress} {arguments : List String}
    (h : readFrom p arguments = .ok q) (hhelp : p.helpSeen = true) : q.helpSeen = true := by
  fun_induction readFrom p arguments with
  | case1 p =>
    obtain rfl := Except.ok.inj h
    exact hhelp
  | case2 => cases h
  | case3 p argument rest _ _ ih => exact ih h rfl
  | case4 p rest _ _ ih => exact ih h hhelp
  | case5 => cases h
  | case6 p argument rest _ _ _ _ _ ih => exact ih h hhelp
  | case7 => cases h
  | case8 => cases h
  | case9 => cases h
  | case10 p _ value rest _ verbosity _ _ _ _ _ ih => exact ih h hhelp
  | case11 => cases h

theorem exists_items {p q : Progress} {arguments : List String} (h : readFrom p arguments = .ok q)
    (hhelp : q.helpSeen = false) : ∃ items ended, arguments = spell items ended := by
  fun_induction readFrom p arguments with
  | case1 => exact ⟨[], false, rfl⟩
  | case2 => cases h
  | case3 p argument rest _ _ _ =>
    have hseen := helpSeen_of_readFrom h rfl
    cases hhelp.symm.trans hseen
  | case4 p rest _ _ _ =>
    obtain rfl := eq_nil_of_ended rfl h
    exact ⟨[], true, rfl⟩
  | case5 => cases h
  | case6 p argument rest _ _ _ _ hswitch ih =>
    obtain ⟨items, ended, rfl⟩ := ih h
    obtain rfl | rfl : argument = "-t" ∨ argument = "--single-shot" := by simpa using hswitch
    · exact ⟨.shortSwitch :: items, ended, rfl⟩
    · exact ⟨.longSwitch :: items, ended, rfl⟩
  | case7 => cases h
  | case8 => cases h
  | case9 => cases h
  | case10 p _ value rest _ verbosity _ _ _ _ _ ih =>
    obtain ⟨items, ended, rfl⟩ := ih h
    exact ⟨.level value :: items, ended, rfl⟩
  | case11 => cases h

/-! ### Settings -/

def Progress.settings (p : Progress) : Settings :=
  { singleShot := p.singleShot, verbosity := p.verbosity?.getD (.upTo .warn) }

theorem read_eq_ok_iff {arguments : List String} {settings : Settings} :
    read arguments = .ok settings ↔
    ∃ q, readFrom {} arguments = .ok q ∧ q.helpSeen = false ∧ q.settings = settings := by
  unfold read
  cases h : readFrom {} arguments with
  | error refusal => simp [bind, Except.bind]
  | ok q => cases hhelp : q.helpSeen <;> simp [bind, Except.bind, hhelp, Progress.settings]

/-- What items set: the switch, if one of them is it, and the verbosity, if one of them names it. -/
structure Sets (items : List Item) (settings : Settings) : Prop where
  singleShot : settings.singleShot = items.any Item.isSwitch
  verbosity : ∃ named? : Option Verbosity, (values items).map Verbosity.ofName? =
    named?.toList.map some ∧ settings.verbosity = named?.getD (.upTo .warn)

theorem readFrom_mark {p : Progress} (hp : p.Plain) (ended : Bool) :
    readFrom p (if ended then ["--"] else []) = .ok { p with optionsEnded := ended } := by
  obtain ⟨hhelp, hended⟩ := hp
  cases ended with
  | false =>
    rw [if_neg (by decide), ← hended]
    rfl
  | true =>
    rw [if_pos rfl, readFrom.eq_def]
    dsimp only
    rw [hhelp, hended, if_neg (by decide), if_neg (by decide), if_pos rfl]
    rfl

theorem sets_iff {items : List Item} {settings : Settings} :
    Sets items settings ↔ ∃ q, Takes {} items q ∧ q.settings = settings := by
  constructor
  · rintro ⟨hshot, named?, hnamed, hverbosity⟩
    refine ⟨{ singleShot := items.any Item.isSwitch, verbosity? := named? },
      ⟨rfl, rfl, rfl, _, hnamed, rfl⟩, ?_⟩
    unfold Progress.settings
    rw [← hshot, ← hverbosity]
  · rintro ⟨q, ⟨-, -, hshot, named, hnamed, hverbosity⟩, rfl⟩
    obtain rfl : q.verbosity?.toList = named := hverbosity
    exact ⟨hshot, q.verbosity?, hnamed, rfl⟩

theorem read_spell_iff {items : List Item} {ended : Bool} {settings : Settings} :
    read (spell items ended) = .ok settings ↔ Sets items settings := by
  have hfresh : ({} : Progress).Plain := ⟨rfl, rfl⟩
  rw [read_eq_ok_iff, sets_iff]
  unfold spell
  constructor
  · rintro ⟨r, hread, -, rfl⟩
    obtain ⟨q, htakes, hmark⟩ := (readFrom_items hfresh).mp hread
    rw [readFrom_mark ⟨htakes.helpSeen, htakes.optionsEnded⟩] at hmark
    obtain rfl := Except.ok.inj hmark
    exact ⟨q, htakes, rfl⟩
  · rintro ⟨q, htakes, rfl⟩
    -- the mark only ends the options, which is no setting
    refine ⟨{ q with optionsEnded := ended }, (readFrom_items hfresh).mpr ⟨q, htakes, ?_⟩,
      htakes.helpSeen, rfl⟩
    exact readFrom_mark ⟨htakes.helpSeen, htakes.optionsEnded⟩ ended

theorem read_iff {arguments : List String} {settings : Settings} : read arguments = .ok settings ↔
    ∃ items ended, arguments = spell items ended ∧ Sets items settings := by
  constructor
  · intro h
    obtain ⟨q, hread, hhelp, -⟩ := read_eq_ok_iff.mp h
    obtain ⟨items, ended, rfl⟩ := exists_items hread hhelp
    exact ⟨items, ended, rfl, read_spell_iff.mp h⟩
  · rintro ⟨items, ended, rfl, hsets⟩
    exact read_spell_iff.mpr hsets

/-! ### What items set -/

theorem Sets.named {items : List Item} {settings : Settings} (h : Sets items settings)
    {value : String} (hvalue : .level value ∈ items) : settings.verbosity.Names value := by
  obtain ⟨named?, hnamed, hverbosity⟩ := h.verbosity
  have hmem : Verbosity.ofName? value ∈ named?.toList.map some := by
    rw [← hnamed]
    exact List.mem_map_of_mem (mem_values.mpr hvalue)
  obtain ⟨v, hv, hname⟩ := List.mem_map.mp hmem
  obtain rfl : named? = some v := by simpa using hv
  rw [hverbosity]
  exact Verbosity.ofName?_eq_some_iff.mp hname.symm

theorem Sets.valid {items : List Item} {settings : Settings}
    (h : Sets items settings) : Valid items := by
  obtain ⟨named?, hnamed, -⟩ := h.verbosity
  refine ⟨?_, fun value hvalue => ⟨_, h.named hvalue⟩⟩
  have hlength := congrArg List.length hnamed
  rw [List.length_map, List.length_map] at hlength
  rw [hlength]
  cases named? <;> simp

theorem Valid.exists_sets {items : List Item} (h : Valid items) :
    ∃ settings, Sets items settings := by
  obtain ⟨hmost, hnames⟩ := h
  suffices hnamed :
      ∃ named? : Option Verbosity, (values items).map Verbosity.ofName? = named?.toList.map some by
    obtain ⟨named?, hnamed⟩ := hnamed
    exact ⟨{ singleShot := items.any Item.isSwitch, verbosity := named?.getD (.upTo .warn) }, rfl,
      named?, hnamed, rfl⟩
  rcases hvalues : values items with _ | ⟨value, _ | ⟨second, rest⟩⟩
  · exact ⟨none, rfl⟩
  · obtain ⟨v, hv⟩ := hnames value (mem_values.mp (hvalues ▸ List.mem_cons_self))
    refine ⟨some v, ?_⟩
    rw [List.map_singleton, Verbosity.ofName?_eq_some_iff.mpr hv]
    rfl
  · rw [hvalues] at hmost
    exact absurd hmost (by simp)

theorem Sets.unnamed {items : List Item} {settings : Settings} (h : Sets items settings)
    (hnone : ∀ value, .level value ∉ items) : settings.verbosity = .upTo .warn := by
  obtain ⟨named?, hnamed, hverbosity⟩ := h.verbosity
  have hvalues : values items = [] := by
    apply List.eq_nil_iff_forall_not_mem.mpr
    intro value hvalue
    exact hnone value (mem_values.mp hvalue)
  rw [hvalues] at hnamed
  cases named? with
  | none => exact hverbosity
  | some v => cases hnamed

theorem Sets.perm {items items' : List Item} {settings : Settings} (hperm : items.Perm items')
    (h : Sets items settings) : Sets items' settings := by
  obtain ⟨hshot, named?, hnamed, hverbosity⟩ := h
  have hvalues : ((values items').map Verbosity.ofName?).Perm (named?.toList.map some) := by
    rw [← hnamed]
    exact ((hperm.symm.filterMap Item.value?).map Verbosity.ofName?)
  refine ⟨hshot.trans hperm.any_eq, named?, ?_, hverbosity⟩
  cases named? with
  | none => exact hvalues.eq_nil
  | some v => exact List.perm_singleton.mp hvalues

theorem Sets.cons_switch_iff {items : List Item} {settings : Settings} {item other : Item}
    (hitem : item.isSwitch = true) (hother : other.isSwitch = true) (hmem : other ∈ items) :
    Sets (item :: items) settings ↔ Sets items settings := by
  have hvalues := values_switch hitem items
  have hany : (item :: items).any Item.isSwitch = items.any Item.isSwitch := by
    rw [List.any_cons, hitem, Bool.true_or, eq_comm, List.any_eq_true]
    exact ⟨other, hmem, hother⟩
  constructor
  · rintro ⟨hshot, hverbosity⟩
    exact ⟨hshot.trans hany, hvalues ▸ hverbosity⟩
  · rintro ⟨hshot, hverbosity⟩
    exact ⟨hshot.trans hany.symm, hvalues ▸ hverbosity⟩

theorem names_no_help : ∀ v ∈ Verbosity.all, ¬v.Names "help" ∧ ¬v.Names "--help" := by
  decide

theorem Sets.help_not_mem {items : List Item} {settings : Settings} (h : Sets items settings)
    {word : String} (hword : word = "help" ∨ word = "--help") (ended : Bool) :
    word ∉ spell items ended := by
  intro hmem
  rcases List.mem_append.mp hmem with hmem | hmark
  · obtain ⟨item, hitem, hmem⟩ := List.mem_flatMap.mp hmem
    cases item with
    | shortSwitch =>
      obtain rfl := List.mem_singleton.mp hmem
      exact absurd hword (by decide)
    | longSwitch =>
      obtain rfl := List.mem_singleton.mp hmem
      exact absurd hword (by decide)
    | level value =>
      rcases List.mem_cons.mp hmem with rfl | hmem
      · exact absurd hword (by decide)
      · obtain rfl := List.mem_singleton.mp hmem
        obtain ⟨hshort, hlong⟩ := names_no_help _ (Verbosity.mem_all settings.verbosity)
        have hnames := h.named hitem
        rcases hword with rfl | rfl
        · exact hshort hnames
        · exact hlong hnames
  · cases ended with
    | false => exact absurd hmark List.not_mem_nil
    | true =>
      obtain rfl := List.mem_singleton.mp hmark
      exact absurd hword (by decide)

/-- The command lines that give settings are the ones that are made of items with one level at most,
which is named. What they set depends neither on the order of the items nor on how often there is a
switch, and none of them asks for help. -/
theorem accepts_items :
    (∀ arguments, (∃ settings, read arguments = .ok settings) ↔
      ∃ items ended, arguments = spell items ended ∧ Valid items) ∧
    (∀ items ended settings, read (spell items ended) = .ok settings →
      (settings.singleShot = true ↔ ∃ item ∈ items, item.isSwitch = true) ∧
      (∀ value, .level value ∈ items → settings.verbosity.Names value) ∧
      ((∀ value, .level value ∉ items) → settings.verbosity = .upTo .warn)) ∧
    (∀ items items' ended ended' settings, items.Perm items' →
      (read (spell items ended) = .ok settings ↔ read (spell items' ended') = .ok settings)) ∧
    (∀ items ended settings item other, item.isSwitch = true →
      other.isSwitch = true → other ∈ items → (read (spell (item :: items) ended) = .ok settings ↔
        read (spell items ended) = .ok settings)) ∧
    (∀ arguments settings, read arguments = .ok settings →
      "help" ∉ arguments ∧ "--help" ∉ arguments) := by
  refine ⟨fun arguments => ⟨?_, ?_⟩,
    fun items ended settings h => ?_, fun items items' ended ended' settings hperm => ?_,
    fun items ended settings item other hitem hother hmem => ?_, fun arguments settings h => ?_⟩
  · rintro ⟨settings, h⟩
    obtain ⟨items, ended, rfl, hsets⟩ := read_iff.mp h
    exact ⟨items, ended, rfl, hsets.valid⟩
  · rintro ⟨items, ended, rfl, hvalid⟩
    obtain ⟨settings, hsets⟩ := hvalid.exists_sets
    exact ⟨settings, read_spell_iff.mpr hsets⟩
  · have hsets := read_spell_iff.mp h
    refine ⟨?_, fun value hvalue => hsets.named hvalue, hsets.unnamed⟩
    rw [hsets.singleShot, List.any_eq_true]
  · rw [read_spell_iff, read_spell_iff]
    exact ⟨fun h => h.perm hperm, fun h => h.perm hperm.symm⟩
  · rw [read_spell_iff, read_spell_iff]
    exact Sets.cons_switch_iff hitem hother hmem
  · obtain ⟨items, ended, rfl, hsets⟩ := read_iff.mp h
    exact ⟨hsets.help_not_mem (.inl rfl) ended, hsets.help_not_mem (.inr rfl) ended⟩

/-- Two switches around a level, and the same items in another order without the mark. -/
theorem accepts_items_of_debug : ∃ settings,
    read ["--single-shot", "--log-level", "Debug", "-t", "--"] = .ok settings ∧
    settings.singleShot = true ∧ settings.verbosity.Names "Debug" ∧
    read ["-t", "--log-level", "Debug", "--single-shot"] = .ok settings ∧
    read ["--log-level", "Debug", "--single-shot"] = .ok settings ∧
    "help" ∉ ["--single-shot", "--log-level", "Debug", "-t", "--"] := by
  obtain ⟨haccepts, hsets, hperm, hrepeat, hhelp⟩ := accepts_items
  have hvalid : Valid [.longSwitch, .level "Debug", .shortSwitch] := by
    refine ⟨by decide, fun value hvalue => ⟨.upTo .debug, ?_⟩⟩
    obtain rfl : value = "Debug" := by simpa using hvalue
    decide
  obtain ⟨settings, hread⟩ := (haccepts ["--single-shot", "--log-level", "Debug", "-t", "--"]).mpr
    ⟨[.longSwitch, .level "Debug", .shortSwitch], true, rfl, hvalid⟩
  obtain ⟨hshot, hnamed, -⟩ := hsets [.longSwitch, .level "Debug", .shortSwitch] true settings hread
  have hother : read ["-t", "--log-level", "Debug", "--single-shot"] = .ok settings :=
    (hperm [.longSwitch, .level "Debug", .shortSwitch] [.shortSwitch, .level "Debug",
      .longSwitch] true false settings (by decide)).mp hread
  have honce : read ["--log-level", "Debug", "--single-shot"] = .ok settings :=
    (hrepeat [.level "Debug", .longSwitch] false settings .shortSwitch .longSwitch rfl rfl
      (by decide)).mp hother
  exact ⟨settings, hread, hshot.mpr ⟨.shortSwitch, by decide, rfl⟩, hnamed "Debug" (by decide),
    hother, honce, (hhelp _ settings hread).1⟩

end Settings

end PipeShell
