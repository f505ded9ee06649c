import PipeShell.Proofs.Line.Column
import PipeShell.Proofs.Line.Scan

/-!
Scans keep to their line. Wherever a scan stands, all that was ever moved over is ASCII, so that
indices count bytes and characters alike, every text that is cut out begins and ends between
characters, and the scan agrees with the reader that goes over characters. What the scan has told
its builder is what that reader gives as the action. A loop goes on only if its turn has moved
forward.
-/

set_option autoImplicit false
set_option relaxedAutoImplicit false

namespace PipeShell.Line

open Bytes (Ascii)
open Grammar Utf8

/-! ### Characters -/

theorem asciiOnly_isBlank : AsciiOnly isBlank := by
  intro c hc
  rcases isBlank_iff.mp hc with rfl | rfl <;> decide

theorem asciiOnly_isPart : AsciiOnly isPart := fun _ hc => ascii_of_partCharacter (isPart_iff.mp hc)

theorem asciiOnly_isIdentifier : AsciiOnly isIdentifier := by
  intro c hc
  refine asciiOnly_isPart c ?_
  by_contra hpart
  rw [isIdentifier_of_isPart (by simpa using hpart)] at hc
  cases hc

theorem forall_ascii {word : List Char} (h : word.all fun c => decide (Ascii c)) :
    ∀ c ∈ word, Ascii c :=
  fun c hc => of_decide_eq_true (List.all_eq_true.mp h c hc)

/-! ### Places in the line -/

namespace Cursor

/-- A cursor of the line: before its furthest place is nothing but ASCII. -/
structure Inside (text : List Char) (c : Cursor) : Prop where
  rest_eq : c.rest = text.drop c.offset
  le_furthest : c.offset ≤ c.furthest
  furthest_le : c.furthest ≤ text.length
  ascii : ∀ d ∈ text.take c.furthest, Ascii d

namespace Inside

variable {text word more : List Char} {c d : Cursor}

theorem start (h : c.Inside text) : Inside text { rest := text, furthest := c.furthest } :=
  ⟨rfl, Nat.zero_le _, h.furthest_le, h.ascii⟩

theorem split (h : c.Inside text) : text = text.take c.offset ++ c.rest := by
  rw [h.rest_eq, List.take_append_drop]

theorem length_before (h : c.Inside text) : (text.take c.offset).length = c.offset := by
  rw [List.length_take, Nat.min_eq_left (h.le_furthest.trans h.furthest_le)]

theorem ascii_before (h : c.Inside text) : ∀ d ∈ text.take c.offset, Ascii d :=
  fun d hd => h.ascii d ((List.take_prefix_take_left h.le_furthest).subset hd)

theorem length_bytes (h : c.Inside text) :
    (Bytes.ofString (String.ofList (text.take c.offset))).length = c.offset := by
  rw [Bytes.length_ofString_of_ascii h.ascii_before, h.length_before]

theorem advance (h : c.Inside text) (hrest : c.rest = word ++ more) (hword : ∀ d ∈ word, Ascii d) :
    (c.advance word.length).Inside text := by
  have hlength : c.offset + word.length ≤ text.length := by
    have := congrArg List.length h.split
    rw [List.length_append, h.length_before, hrest, List.length_append] at this
    omega
  have htake : text.take (c.offset + word.length) = text.take c.offset ++ word := by
    rw [List.take_add, ← h.rest_eq, hrest, List.take_left]
  refine ⟨?_, le_max_right _ _, max_le h.furthest_le hlength, ?_⟩
  · show c.rest.drop word.length = text.drop (c.offset + word.length)
    rw [h.rest_eq, List.drop_drop]
  · show ∀ d ∈ text.take (max c.furthest (c.offset + word.length)), Ascii d
    intro d hd
    rcases le_total (c.offset + word.length) c.furthest with hle | hle
    · rw [max_eq_left hle] at hd
      exact h.ascii d hd
    · rw [max_eq_right hle, htake] at hd
      exact (List.mem_append.mp hd).elim (h.ascii_before d) (hword d)

theorem backTo (hc : c.Inside text) (hd : d.Inside text) (hle : c.offset ≤ d.offset) :
    (c.backTo d).Inside text :=
  ⟨hc.rest_eq, hle.trans hd.le_furthest, hd.furthest_le, hd.ascii⟩

theorem advance_zero (h : c.Inside text) : c.advance 0 = c := by
  unfold Cursor.advance
  rw [List.drop_zero, Nat.add_zero, max_eq_left h.le_furthest]

end Inside

theorem advance_advance (c : Cursor) (m n : Nat) : (c.advance m).advance n = c.advance (m + n) := by
  unfold advance
  simp only [List.drop_drop, Cursor.mk.injEq, true_and]
  omega

end Cursor

/-! ### Scans and readers -/

/-- What is noted of a scan that keeps to the line. -/
def Entry.Safe (line : String) : Entry → Prop
  | stands index furthest =>
    index ≤ furthest ∧ furthest ≤ (Bytes.ofString line).length ∧
    (∀ b ∈ (Bytes.ofString line).take furthest, b < 128) ∧ String.Pos.Raw.IsValid line ⟨index⟩
  | cuts start stop =>
    start ≤ stop ∧ stop ≤ (Bytes.ofString line).length ∧ String.Pos.Raw.IsValid line ⟨start⟩ ∧
      String.Pos.Raw.IsValid line ⟨stop⟩
  | turns start stop => start < stop

/-- A scan stands where a reader stands, with this in its builder, and nothing has gone wrong on the
way. -/
structure Stand.At (line : String) (s : Stand) (c : Cursor) (b : Builder) : Prop where
  index_eq : s.index = c.offset
  furthest_eq : s.furthest = c.furthest
  builder_eq : s.builder = b
  inside : c.Inside line.toList
  safe : ∀ entry ∈ s.history, entry.Safe line

namespace Scan

variable {α β γ : Type} {source : Source} {c d e : Cursor} {b b' b'' : Builder}

def Builds (source : Source) (x : Scan α) (c : Cursor) (b : Builder) (a : α) (d : Cursor)
    (b' : Builder) : Prop :=
  ∀ s : Stand, s.At source.line c b → ∃ t, x source s = .ok (a, t) ∧ t.At source.line d b'

def Leads (source : Source) (x : Scan α) (c : Cursor) (a : α) (d : Cursor) : Prop :=
  ∀ b, Builds source x c b a d b

theorem leads_pure (a : α) (c : Cursor) : Leads source (pure a) c a c := fun _ s hs => ⟨s, rfl, hs⟩

theorem Builds.bind {x : Scan α} {f : α → Scan β} {a : α} {r : β} (hx : Builds source x c b a d b')
    (hf : Builds source (f a) d b' r e b'') : Builds source (x >>= f) c b r e b'' := by
  intro s hs
  obtain ⟨t, hrun, ht⟩ := hx s hs
  obtain ⟨u, hrun', hu⟩ := hf t ht
  refine ⟨u, ?_, hu⟩
  show (x source s >>= fun r => f r.1 source r.2) = .ok (r, u)
  rw [hrun]
  exact hrun'

theorem Leads.bind {x : Scan α} {f : α → Scan β} {a : α} {r : β} (hx : Leads source x c a d)
    (hf : Leads source (f a) d r e) : Leads source (x >>= f) c r e := fun b => (hx b).bind (hf b)

theorem builds_tell (call : Builder → Builder) (c : Cursor) (b : Builder) :
    Builds source (tell call) c b () c (call b) :=
  fun _ hs => ⟨_, rfl, hs.index_eq, hs.furthest_eq, congrArg call hs.builder_eq, hs.inside, hs.safe⟩

theorem Leads.of_none {x : Scan Bool} {o : Option Cursor} (h : Leads source x c o.isSome (o.getD c))
    (ho : o = none) : Leads source x c false c := by
  rwa [ho] at h

theorem Leads.of_some {x : Scan Bool} {o : Option Cursor} (h : Leads source x c o.isSome (o.getD c))
    (ho : o = some d) : Leads source x c true d := by
  rwa [ho] at h

theorem builds_of_inside {x : Scan α} {a : α}
    (h : c.Inside source.line.toList → Builds source x c b a d b') :
    Builds source x c b a d b' := fun s hs => h hs.inside s hs

theorem leads_of_inside {x : Scan α} {a : α}
    (h : c.Inside source.line.toList → Leads source x c a d) :
    Leads source x c a d := fun b => builds_of_inside fun hc => h hc b

theorem leads_line (c : Cursor) : Leads source line c source.line c := fun _ s hs => ⟨s, rfl, hs⟩

theorem leads_index (c : Cursor) : Leads source index c c.offset c :=
  fun _ s hs => ⟨s, by rw [← hs.index_eq]; rfl, hs⟩

theorem leads_note {entry : Entry} (h : c.Inside source.line.toList → entry.Safe source.line) :
    Leads source (note entry) c () c :=
  fun _ _ hs => ⟨_, rfl, hs.index_eq, hs.furthest_eq, hs.builder_eq, hs.inside,
    List.forall_mem_cons.mpr ⟨h hs.inside, hs.safe⟩⟩

/-! ### Safe entries -/

theorem safe_stands {line : String} (h : c.Inside line.toList) :
    Entry.Safe line (.stands c.offset c.furthest) := by
  obtain ⟨hle, htake⟩ := Bytes.take_ofString_of_ascii h.furthest_le h.ascii
  refine ⟨h.le_furthest, hle, ?_, ?_⟩
  · rw [← htake]
    exact Bytes.lt_of_mem_ofString_of_ascii h.ascii
  · have hvalid := isValid_of_split h.split
    rwa [h.length_bytes] at hvalid

theorem safe_cuts {line : String} {before text after : List Char}
    (h : line.toList = before ++ text ++ after) :
    Entry.Safe line (.cuts (Bytes.ofString (String.ofList before)).length
      (Bytes.ofString (String.ofList (before ++ text))).length) := by
  have hlength (front back : List Char) : (Bytes.ofString (String.ofList (front ++ back))).length =
      (Bytes.ofString (String.ofList front)).length +
      (Bytes.ofString (String.ofList back)).length := by
    simp only [Bytes.ofString_ofList, List.flatMap_append, List.length_append]
  refine ⟨?_, ?_, isValid_of_split (h.trans (List.append_assoc before text after)),
    isValid_of_split h⟩
  · rw [hlength]
    omega
  · have hline := hlength (before ++ text) after
    rw [← h, String.ofList_toList] at hline
    omega

/-! ### Steps of a scan -/

theorem leads_stand (h : c.Inside source.line.toList → d.Inside source.line.toList) :
    Leads source (stand d.offset d.furthest) c () d :=
  fun _ _ hs => ⟨_, rfl, rfl, rfl, hs.builder_eq, h hs.inside,
    List.forall_mem_cons.mpr ⟨safe_stands (h hs.inside), hs.safe⟩⟩

theorem leads_advance (word : List Char) {more : List Char} (hrest : c.rest = word ++ more)
    (hword : ∀ a ∈ word, Ascii a) :
    Leads source (advance word.length) c () (c.advance word.length) := by
  intro b s hs
  obtain ⟨t, hrun, ht⟩ := leads_stand (fun h => h.advance hrest hword) b s hs
  refine ⟨t, ?_, ht⟩
  show stand (s.index + word.length) (max s.furthest (s.index + word.length)) source s = .ok ((), t)
  rw [hs.index_eq, hs.furthest_eq]
  exact hrun

/-- Going back leads to an earlier place, but what was reached stays reached. -/
theorem leads_goBack (hd : d.Inside source.line.toList) (hle : d.offset ≤ c.offset) :
    Leads source (goBack d.offset) c () (d.backTo c) := by
  intro b s hs
  obtain ⟨t, hrun, ht⟩ := leads_stand (d := d.backTo c) (fun h => hd.backTo h hle) b s hs
  refine ⟨t, ?_, ht⟩
  show stand d.offset s.furthest source s = .ok ((), t)
  rw [hs.furthest_eq]
  exact hrun

theorem builds_rewind (c : Cursor) (b : Builder) :
    Builds source rewind c b () { rest := source.line.toList, furthest := c.furthest } {} :=
  builds_of_inside fun h => (leads_goBack h.start (Nat.zero_le c.offset) b).bind (builds_tell _ _ b)

theorem leads_peek (c : Cursor) : Leads source peek c (byteCharacters c.rest).head? c := by
  intro b s hs
  refine ⟨s, ?_, hs⟩
  show Except.ok (((Bytes.ofString source.line)[s.index]?).map character, s) = _
  have hsplit := Bytes.ofString_eq_append source.line c.offset
  have hlength := hs.inside.length_bytes
  rw [hs.index_eq, hsplit, List.getElem?_append_right hlength.le, hlength, Nat.sub_self,
    ← List.head?_eq_getElem?, ← hs.inside.rest_eq, byteCharacters, List.head?_map]

theorem leads_cut {before text after : List Char} (h : source.line.toList = before ++ text ++ after)
    {start stop : Nat} (hstart : (Bytes.ofString (String.ofList before)).length = start)
    (hstop : (Bytes.ofString (String.ofList (before ++ text))).length = stop) :
    Leads source (cut start stop) c (String.ofList text) c := by
  subst hstart hstop
  refine (leads_note fun _ => safe_cuts h).bind ((leads_line c).bind ?_)
  rw [textBetween?_of_split h]
  exact leads_pure _ c

theorem leads_rest (c : Cursor) : Leads source rest c (String.ofList c.rest) c := by
  refine leads_of_inside fun h => (leads_index c).bind ((leads_line c).bind ?_)
  refine leads_cut (h.split.trans (List.append_nil _).symm) h.length_bytes ?_
  rw [← h.split, String.ofList_toList]

/-! ### Loops -/

section

variable {turn : Scan (Turn α)} {a : α}

def Ends (source : Source) (turn : Scan (Turn α)) (c : Cursor) (b : Builder) (a : α) (d : Cursor)
    (b' : Builder) : Prop :=
  ∀ n, c.rest.length < n → Builds source (turnWithin turn n) c b a d b'

theorem Ends.last (h : Builds source turn c b (.last a) d b') : Ends source turn c b a d b' := by
  intro n hn
  obtain ⟨m, rfl⟩ := Nat.exists_eq_add_of_lt hn
  exact (leads_index c b).bind (h.bind (leads_pure a d b'))

theorem Ends.fail (h : Builds source turn c b (.fail a) d b') (hlt : c.offset < d.offset) :
    Ends source turn c b a d b' := by
  intro n hn
  obtain ⟨m, rfl⟩ := Nat.exists_eq_add_of_lt hn
  have hnote : Entry.Safe source.line (.turns c.offset d.offset) := hlt
  refine (leads_index c b).bind (h.bind ((leads_index d b').bind ?_))
  exact (leads_note (fun _ => hnote) b').bind (leads_pure a d b')

theorem Ends.next (h : Builds source turn c b .next d b') (hlt : c.offset < d.offset)
    (hrest : Ends source turn d b' a e b'') : Ends source turn c b a e b'' := by
  intro n hn
  obtain ⟨m, rfl⟩ := Nat.exists_eq_add_of_lt hn
  refine builds_of_inside fun hc => (leads_index c b).bind (h.bind (builds_of_inside fun hd => ?_))
  -- A larger index is a shorter rest, since both are told of the same place in the line.
  have hshort : d.rest.length < c.rest.length + m := by
    have hlong := hd.le_furthest.trans hd.furthest_le
    rw [hc.rest_eq, hd.rest_eq, List.length_drop, List.length_drop]
    omega
  have hnote : Entry.Safe source.line (.turns c.offset d.offset) := hlt
  refine (leads_index d b').bind ((leads_note (fun _ => hnote) b').bind ?_)
  exact hrest _ hshort

theorem Ends.loop (hpatience : (Bytes.ofString source.line).length < source.patience)
    (h : Ends source turn c b a d b') : Builds source (loop turn) c b a d b' := by
  refine builds_of_inside fun hc => h source.patience ?_
  have hchars := Bytes.length_le_ofString source.line
  rw [hc.rest_eq, List.length_drop]
  omega

end

/-! ### Runs and marks -/

theorem takeWhile_of_stops {p : Char → Bool} {text : List Char} (h : c.Inside text)
    (hs : Stops p c.rest) : c.takeWhile p = ([], c) := by
  unfold Cursor.takeWhile
  rw [hs.takeWhile_eq]
  exact congrArg (Prod.mk []) h.advance_zero

theorem eq_of_takeWhile_nil {p : Char → Bool} {text : List Char} (h : c.Inside text)
    (hrun : c.takeWhile p = ([], d)) : d = c := by
  obtain ⟨hnil, rfl⟩ := Prod.mk.inj hrun
  rw [hnil]
  exact h.advance_zero

theorem takeWhile_of_cons {p : Char → Bool} {x : Char} {more : List Char}
    (h : c.rest = x :: more) (hx : p x = true) :
    c.takeWhile p = (x :: ((c.advance 1).takeWhile p).1, ((c.advance 1).takeWhile p).2) := by
  have hmore : (c.advance 1).rest = more := by
    rw [Cursor.rest_advance, h, List.drop_succ_cons, List.drop_zero]
  unfold Cursor.takeWhile
  rw [hmore, h, List.takeWhile_cons_of_pos hx]
  simp only [Cursor.advance_advance, List.length_cons, Nat.add_comm 1]

section

variable {p : Char → Bool} (hp : AsciiOnly p)

include hp

theorem leads_move_last (hs : Stops p c.rest) : Leads source (move p) c (.last ()) c := by
  refine (leads_peek c).bind ?_
  have hany := any_head_byteCharacters hp c.rest
  have hstop : c.rest.head?.any p = false := by
    cases hhead : c.rest.head? with
    | none => rfl
    | some x => exact hs x hhead
  rw [hstop] at hany
  cases hhead : (byteCharacters c.rest).head? with
  | none => exact leads_pure _ c
  | some x =>
    rw [hhead] at hany
    have hx : p x = false := hany
    simp only [hx]
    exact leads_pure _ c

theorem leads_move_next {x : Char} {more : List Char} (h : c.rest = x :: more) (hx : p x = true) :
    Leads source (move p) c .next (c.advance 1) := by
  have hascii : ∀ a ∈ [x], Ascii a := by
    intro a ha
    rw [List.mem_singleton.mp ha]
    exact hp x hx
  have hpeek : Leads source peek c _ c := leads_peek c
  rw [h, byteCharacters_of_ascii (hp x hx), List.head?_cons] at hpeek
  refine hpeek.bind ?_
  simp only [hx]
  exact (leads_advance [x] h hascii).bind (leads_pure _ _)

theorem ends_move (c : Cursor) (b : Builder) : Ends source (move p) c b () (c.takeWhile p).2 b := by
  have hlast (c : Cursor) (hs : Stops p c.rest) :
      Ends source (move p) c b () (c.takeWhile p).2 b := by
    refine fun n hn => builds_of_inside fun h => ?_
    rw [takeWhile_of_stops h hs]
    exact Ends.last (leads_move_last hp hs b) n hn
  generalize htext : c.rest = text
  induction text generalizing c with
  | nil => exact hlast c fun x hx => by rw [htext] at hx; cases hx
  | cons x more ih =>
    by_cases hx : p x = true
    · have hmore : (c.advance 1).rest = more := by
        rw [Cursor.rest_advance, htext, List.drop_succ_cons, List.drop_zero]
      rw [takeWhile_of_cons htext hx]
      exact Ends.next (leads_move_next hp htext hx b) (Nat.lt_succ_self _) (ih (c.advance 1) hmore)
    · exact hlast c (by rw [htext]; exact Stops.cons (by simpa using hx) more)

end

theorem leads_eat {mark : Char} (hmark : Ascii mark) (c : Cursor) :
    Leads source (eat mark) c (c.eat mark).isSome ((c.eat mark).getD c) := by
  refine (leads_peek c).bind ?_
  by_cases hhead : c.rest.head? = some mark
  · obtain ⟨more, hrest⟩ := List.head?_eq_some_iff.mp hhead
    have heat : c.eat mark = some (c.advance 1) := by simp [Cursor.eat, hrest]
    have hascii : ∀ a ∈ [mark], Ascii a := by
      intro a ha
      rwa [List.mem_singleton.mp ha]
    rw [heat, if_pos ((head_byteCharacters_iff hmark c.rest).mpr hhead)]
    exact (leads_advance [mark] hrest hascii).bind (leads_pure _ _)
  · rw [Cursor.eat_none hhead, if_neg fun h => hhead ((head_byteCharacters_iff hmark c.rest).mp h)]
    exact leads_pure _ c

theorem leads_keyword {word : List Char} (hword : ∀ a ∈ word, Ascii a) (c : Cursor) :
    Leads source (keyword word) c (c.keyword word).isSome ((c.keyword word).getD c) := by
  refine (leads_rest c).bind ?_
  -- Bytes and characters fall apart behind ASCII, but nothing there belongs to a keyword or to an
  -- identifier.
  have hbytes := keyword_byteCharacters asciiOnly_isIdentifier hword c.rest
  show Leads source (if (word.isPrefixOf (byteCharacters c.rest) &&
      !(((byteCharacters c.rest).drop word.length).head?.any isIdentifier)) = true then _ else _) c
      _ _
  rw [hbytes]
  unfold Cursor.keyword
  by_cases hfits : (word.isPrefixOf c.rest && !((c.rest.drop word.length).head?.any isIdentifier)) =
    true
  · obtain ⟨more, hmore⟩ := List.isPrefixOf_iff_prefix.mp (Bool.and_eq_true_iff.mp hfits).1
    rw [if_pos hfits, if_pos hfits]
    exact (leads_advance word hmore.symm hword).bind (leads_pure _ _)
  · rw [if_neg hfits, if_neg hfits]
    exact leads_pure _ c

theorem leads_atEnd (c : Cursor) : Leads source atEnd c c.atEnd c := by
  refine (leads_rest c).bind ?_
  have hends : decide (String.ofList c.rest ∈ ["", "\n", "\r\n"]) = c.atEnd := by
    rw [Bool.eq_iff_iff]
    simp [Cursor.atEnd, String.ext_iff, or_assoc]
  rw [← hends]
  exact leads_pure _ c

theorem offset_le_of_moves (h : Cursor.Moves c d) : c.offset ≤ d.offset := by
  obtain ⟨⟨text, -, hoffset⟩, -⟩ := h
  omega

theorem offset_lt_of_moves (h : Cursor.Moves c d) (hlt : d.rest.length < c.rest.length) :
    c.offset < d.offset := by
  obtain ⟨⟨text, hrest, hoffset⟩, -⟩ := h
  rw [hrest, List.length_append] at hlt
  omega

/-! ### Pieces of a line -/

/-- The scan reads what a reader has read, and stands where it stands. Of what was read, the builder
is told this. -/
def Reads (source : Source) (x : Scan Bool) (c : Cursor) (b : Builder) (r : Option β × Cursor)
    (told : β → Builder → Prop) : Prop :=
  ∃ b', Builds source x c b r.1.isSome r.2 b' ∧ ∀ a, r.1 = some a → told a b'

def Tracks (source : Source) (x : Scan Bool) (R : Reader β) (b : Builder)
    (told : β → Builder → Prop) : Prop :=
  ∀ c, Reads source x c b (R c) told

section

variable {R : Reader β} {S : β → Reader γ} {told : β → Builder → Prop} {told' : γ → Builder → Prop}

theorem reads_fails (c : Cursor) (b : Builder) : Reads source (pure false) c b (none, c) told :=
  ⟨b, leads_pure false c b, fun _ h => by cases h⟩

theorem reads_holds {r : β} (c : Cursor) (h : told r b) :
    Reads source (pure true) c b (some r, c) told :=
  ⟨b, leads_pure true c b, fun _ hr => Option.some.inj hr ▸ h⟩

theorem Builds.reads {x : Scan α} {f : α → Scan Bool} {a : α} {r : Option β × Cursor}
    (hx : Builds source x c b a d b') (hf : Reads source (f a) d b' r told) :
    Reads source (x >>= f) c b r told := by
  obtain ⟨b'', h, htold⟩ := hf
  exact ⟨b'', hx.bind h, htold⟩

theorem Reads.andThen {x : Scan Bool} {f : Bool → Scan Bool} (hx : Reads source x c b (R c) told)
    (hnone : f false = pure false)
    (hsome : ∀ r b', told r b' → Tracks source (f true) (S r) b' told') :
    Reads source (x >>= f) c b (R.andThen S c) told' := by
  obtain ⟨b', h, htold⟩ := hx
  rcases hc : R c with ⟨_ | r, d⟩
  · rw [Reader.andThen_of_none hc]
    rw [hc] at h
    refine h.reads ?_
    show Reads source (f false) d b' (none, d) told'
    rw [hnone]
    exact reads_fails d b'
  · rw [Reader.andThen_of_some hc]
    rw [hc] at h
    exact h.reads (hsome r b' (htold r (congrArg Prod.fst hc)) d)

end

section

variable (hpatience : (Bytes.ofString source.line).length < source.patience)

include hpatience

theorem leads_moveWhile {p : Char → Bool} (hp : AsciiOnly p) (c : Cursor) :
    Leads source (moveWhile p) c (c.takeWhile p).1.length (c.takeWhile p).2 := by
  intro b
  refine (leads_index c b).bind
    (((ends_move hp c b).loop hpatience).bind ((leads_index _ b).bind ?_))
  have hoffset : (c.takeWhile p).2.offset = c.offset + (c.takeWhile p).1.length := rfl
  rw [hoffset, if_pos (Nat.le_add_right _ _), Nat.add_sub_cancel_left]
  exact leads_pure _ _ b

theorem leads_skipBlanks (c : Cursor) :
    Leads source skipBlanks c (c.takeWhile isBlank).1.length c.skipBlanks :=
  leads_moveWhile hpatience asciiOnly_isBlank c

theorem leads_blanks {run : List Char} (hrun : c.takeWhile isBlank = (run, d)) :
    Leads source skipBlanks c run.length d := by
  have hskip := leads_moveWhile hpatience asciiOnly_isBlank c
  rwa [hrun] at hskip

theorem tracks_blanks {x : Scan Bool} {R : Reader β} {told : β → Builder → Prop}
    (hx : Tracks source x R b told) :
    Tracks source (skipBlanks >>= fun _ => x) (Reader.blanks.andThen fun _ => R) b told :=
  fun c => (leads_skipBlanks hpatience c b).reads (hx c.skipBlanks)

theorem leads_part {o : Option String} (hc : c.part = (o, d)) : Leads source part c o d := by
  refine leads_of_inside fun h =>
    (leads_index c).bind ((leads_moveWhile hpatience asciiOnly_isPart c).bind ?_)
  unfold Cursor.part at hc
  rcases hrun : c.takeWhile isPart with ⟨_ | ⟨a, run⟩, e⟩
  · rw [hrun] at hc
    obtain ⟨rfl, rfl⟩ := Prod.mk.inj hc
    exact leads_pure _ e
  · rw [hrun] at hc
    obtain ⟨rfl, rfl⟩ := Prod.mk.inj hc
    have hword : ∀ x ∈ a :: run, Ascii x := by
      intro x hx
      have hmem : x ∈ (c.takeWhile isPart).1 := by rwa [hrun]
      exact asciiOnly_isPart x (List.mem_takeWhile_imp hmem)
    have hd : e.offset = c.offset + (a :: run).length := by
      have hfst : (c.takeWhile isPart).1 = a :: run := congrArg Prod.fst hrun
      rw [← hfst]
      exact congrArg (fun r => Cursor.offset r.2) hrun.symm
    have hrest : c.rest = (a :: run) ++ e.rest := by
      have hsplit : c.rest = (c.takeWhile isPart).1 ++ (c.takeWhile isPart).2.rest := by simp
      rwa [hrun] at hsplit
    have hline : source.line.toList = source.line.toList.take c.offset ++ (a :: run) ++ e.rest := by
      rw [List.append_assoc, ← hrest, ← h.split]
    have hascii : ∀ x ∈ source.line.toList.take c.offset ++ (a :: run), Ascii x :=
      fun x hx => (List.mem_append.mp hx).elim (h.ascii_before x) (hword x)
    refine (leads_index e).bind ((leads_cut hline h.length_bytes ?_).bind (leads_pure _ e))
    rw [Bytes.length_ofString_of_ascii hascii, List.length_append, h.length_before, hd]

theorem ends_argument (c : Cursor) (b : Builder) :
    Ends source argument c b () c.moreParts.2 (c.moreParts.1.foldl Builder.argument b) := by
  fun_induction Cursor.moreParts c generalizing b with
  | case1 c d hrun =>
    refine fun n hn => builds_of_inside fun h => Ends.last ?_ n hn
    obtain rfl : d = c := eq_of_takeWhile_nil h hrun
    exact (leads_index d b).bind ((leads_blanks hpatience hrun b).bind (leads_pure _ d b))
  | case2 c a gap d hrun e hpart =>
    refine fun n hn => builds_of_inside fun h => Ends.last ?_ n hn
    obtain rfl : c.skipBlanks = d := congrArg Prod.snd hrun
    have hmoves := (Cursor.moves_takeWhile isBlank c).trans (Reader.steady_part c.skipBlanks).moves
    rw [hpart] at hmoves
    -- Going back ends the loop: it is no turn, so the turns before it have moved forward all the
    -- same.
    have hback : Leads source (goBack c.offset) e () (c.backTo e) :=
      leads_goBack h (offset_le_of_moves hmoves)
    refine (leads_index c b).bind ((leads_blanks hpatience hrun b).bind ?_)
    exact (leads_part hpatience hpart b).bind ((hback b).bind (leads_pure _ _ b))
  | case3 c a gap d hrun text e hpart hshort ih =>
    obtain rfl : c.skipBlanks = d := congrArg Prod.snd hrun
    have hmoves := (Cursor.moves_takeWhile isBlank c).trans (Reader.steady_part c.skipBlanks).moves
    rw [hpart] at hmoves
    have hturn : Builds source argument c b .next e (b.argument text) :=
      (leads_index c b).bind ((leads_blanks hpatience hrun b).bind
        ((leads_part hpatience hpart b).bind ((builds_tell _ e b).bind (leads_pure _ e _))))
    exact Ends.next hturn (offset_lt_of_moves hmoves hshort) (ih (b.argument text))

theorem reads_command (c : Cursor) (b : Builder) :
    Reads source command c b c.command fun words b' => words ≠ [] ∧
      b' = words.foldl Builder.argument b := by
  unfold Cursor.command
  rcases hc : c.part with ⟨_ | text, d⟩
  · exact (leads_part hpatience hc b).reads (reads_fails d b)
  · have harguments := (ends_argument hpatience d (b.argument text)).loop hpatience
    refine (leads_part hpatience hc b).reads ((builds_tell _ d b).reads (harguments.reads ?_))
    exact reads_holds _ ⟨List.cons_ne_nil text _, rfl⟩

theorem tracks_spacedCommand {f : Bool → Scan Bool} {x : Scan Bool} {S : List String → Reader β}
    {told : β → Builder → Prop} (b : Builder) (hnone : f false = pure false)
    (hsome : f true = skipBlanks >>= fun _ => x)
    (hx : ∀ words ≠ [], Tracks source x (S words) (words.foldl Builder.argument b) told) :
    Tracks source (command >>= f) (Reader.spacedCommand.andThen S) b told := by
  intro c
  obtain ⟨b', h, htold⟩ := reads_command hpatience c b
  rcases hc : c.command with ⟨_ | words, d⟩
  · rw [Reader.andThen_of_none (Reader.spacedCommand_of_none hc)]
    rw [hc] at h
    refine h.reads ?_
    show Reads source (f false) d b' (none, d) told
    rw [hnone]
    exact reads_fails d b'
  · rw [Reader.andThen_of_some (Reader.spacedCommand_of_some hc)]
    rw [hc] at h
    obtain ⟨hne, rfl⟩ := htold words (congrArg Prod.fst hc)
    refine h.reads ?_
    show Reads source (f true) d _ _ told
    rw [hsome]
    exact (leads_skipBlanks hpatience d _).reads (hx words hne d.skipBlanks)

theorem reads_redirection {mark : Char} (hmark : Ascii mark) (file : Builder → String → Builder)
    (c : Cursor) (b : Builder) :
    Reads source (redirection mark file) c b (c.redirection mark) fun target b' => b' =
      b.redirect file target := by
  unfold Cursor.redirection
  cases hc : c.eat mark with
  | none => exact ((leads_eat hmark c).of_none hc b).reads (reads_holds c rfl)
  | some d =>
    refine ((leads_eat hmark c).of_some hc b).reads ((leads_skipBlanks hpatience d b).reads ?_)
    dsimp only
    rcases he : d.skipBlanks.part with ⟨_ | text, e⟩
    · exact (leads_part hpatience he b).reads (reads_fails e b)
    · exact (leads_part hpatience he b).reads ((builds_tell _ e b).reads (reads_holds e rfl))

theorem ends_furtherCommand (c : Cursor) (b : Builder) :
    ∃ b', Ends source furtherCommand c b c.moreCommands.1.isSome c.moreCommands.2 b' ∧
      ∀ others, c.moreCommands.1 = some others → b' = others.foldl Builder.command b := by
  fun_induction Cursor.moreCommands c generalizing b with
  | case1 c hbar =>
    have heat : Leads source (eat '|') c false c := (leads_eat (by decide) c).of_none hbar
    exact ⟨b, Ends.last ((heat b).bind (leads_pure _ c b)), fun others h => Option.some.inj h ▸ rfl⟩
  | case2 c d hbar e hcommand =>
    have heat : Leads source (eat '|') c true d := (leads_eat (by decide) c).of_some hbar
    obtain ⟨b', hnone, -⟩ := reads_command hpatience d.skipBlanks b.bar
    rw [hcommand] at hnone
    have hmoves := (Reader.steady_spacedCommand d.skipBlanks).moves
    rw [Reader.spacedCommand_of_none hcommand] at hmoves
    -- The turn that fails may read nothing behind its bar, so it is the bar that is counted.
    have hforward : c.offset < e.offset := Nat.lt_of_lt_of_le
      (offset_lt_of_moves (Cursor.moves_eat hbar) (Cursor.length_rest_eat hbar))
      (offset_le_of_moves ((Cursor.moves_takeWhile isBlank d).trans hmoves))
    have hturn : Builds source furtherCommand c b (.fail false) e b' :=
      (heat b).bind ((builds_tell _ d b).bind
        ((leads_skipBlanks hpatience d _).bind (hnone.bind (leads_pure _ e b'))))
    exact ⟨b', Ends.fail hturn hforward, fun others h => by cases h⟩
  | case3 c d hbar words e hcommand hshort ih =>
    have heat : Leads source (eat '|') c true d := (leads_eat (by decide) c).of_some hbar
    obtain ⟨b', hsome, htold⟩ := reads_command hpatience d.skipBlanks b.bar
    obtain ⟨-, rfl⟩ := htold words (congrArg Prod.fst hcommand)
    rw [hcommand] at hsome
    have hmoves := (Reader.steady_spacedCommand d.skipBlanks).moves
    rw [Reader.spacedCommand_of_some hcommand] at hmoves
    have hturn : Builds source furtherCommand c b .next e.skipBlanks (b.command words) :=
      (heat b).bind ((builds_tell _ d b).bind ((leads_skipBlanks hpatience d _).bind
        (hsome.bind ((leads_skipBlanks hpatience e _).bind (leads_pure _ _ _)))))
    have hforward : c.offset < e.skipBlanks.offset :=
      offset_lt_of_moves
        (((Cursor.moves_eat hbar).trans (Cursor.moves_takeWhile isBlank d)).trans hmoves) hshort
    obtain ⟨b', hothers, hall⟩ := ih (b.command words)
    refine ⟨b', ?_, fun others h => ?_⟩
    · rw [Option.isSome_map]
      exact Ends.next hturn hforward hothers
    · obtain ⟨more, hmore, rfl⟩ := Option.map_eq_some_iff.mp h
      exact hall more hmore

theorem reads_furtherCommands (c : Cursor) (b : Builder) :
    Reads source (loop furtherCommand) c b c.moreCommands
      fun others b' => b' = others.foldl Builder.command b := by
  obtain ⟨b', hends, htold⟩ := ends_furtherCommand hpatience c b
  exact ⟨b', hends.loop hpatience, htold⟩

/-! ### Forms of a line -/

def Finishes (action : Action) (b : Builder) : Prop := b.finish = action

theorem tracks_exit : Tracks source exit exitForm {} Finishes := by
  intro c
  have hkeyword : Leads source (keyword "exit".toList) c.skipBlanks _ _ :=
    leads_keyword (forall_ascii (by decide)) _
  refine (leads_skipBlanks hpatience c _).reads ?_
  unfold exitForm
  rcases hc : c.skipBlanks.keyword "exit".toList with _ | d
  · exact (hkeyword.of_none hc _).reads (reads_fails _ _)
  · refine (hkeyword.of_some hc _).reads ((builds_tell _ d _).reads ?_)
    exact (leads_skipBlanks hpatience d _).reads (reads_holds _ rfl)

theorem tracks_directory : Tracks source directory directoryForm {} Finishes := by
  intro c
  have hkeyword : Leads source (keyword "cd".toList) c.skipBlanks _ _ :=
    leads_keyword (forall_ascii (by decide)) _
  refine (leads_skipBlanks hpatience c _).reads ?_
  unfold directoryForm
  rcases hc : c.skipBlanks.keyword "cd".toList with _ | d
  · exact (hkeyword.of_none hc _).reads (reads_fails _ _)
  · refine (hkeyword.of_some hc _).reads ((builds_tell _ d _).reads ?_)
    dsimp only
    rcases hrun : d.takeWhile isBlank with ⟨_ | ⟨b, gap⟩, e⟩
    · exact (leads_blanks hpatience hrun _).reads (reads_fails e _)
    · refine (leads_blanks hpatience hrun _).reads ?_
      dsimp only
      rcases he : e.part with ⟨_ | target, f⟩
      · exact (leads_part hpatience he _).reads (reads_fails f _)
      · refine (leads_part hpatience he _).reads ((builds_tell _ f _).reads ?_)
        exact (leads_skipBlanks hpatience f _).reads (reads_holds _ rfl)

theorem tracks_ending (stages : List Stage) :
    Tracks source (skipBlanks >>= fun _ => mark >>= fun _ => skipBlanks >>= fun _ => pure true)
      (Reader.blanks.andThen fun _ => Reader.ending stages) (.ofStages stages) Finishes := by
  intro c
  have heat : Leads source (eat '&') c.skipBlanks _ _ := leads_eat (by decide) c.skipBlanks
  refine (leads_skipBlanks hpatience c _).reads ?_
  show Reads source _ c.skipBlanks _ (Reader.ending stages c.skipBlanks) Finishes
  unfold Reader.ending
  cases hmark : c.skipBlanks.eat '&' with
  | none =>
    rw [Reader.ifMark_of_none hmark]
    have hstops : Stops isBlank c.skipBlanks.rest := by
      rw [Cursor.rest_skipBlanks]
      exact stops_dropWhile isBlank c.rest
    have hskip : Leads source skipBlanks c.skipBlanks 0 c.skipBlanks :=
      leads_of_inside fun h => leads_blanks hpatience (takeWhile_of_stops h hstops)
    have hnothing : Leads source mark c.skipBlanks () c.skipBlanks :=
      (heat.of_none hmark).bind (leads_pure () _)
    exact (hnothing _).reads ((hskip _).reads (reads_holds _ rfl))
  | some d =>
    rw [Reader.ifMark_of_some hmark]
    have htold : Builds source mark c.skipBlanks (.ofStages stages) () d _ :=
      (heat.of_some hmark _).bind (builds_tell _ d _)
    exact htold.reads ((leads_skipBlanks hpatience d _).reads (reads_holds _ rfl))

theorem tracks_pipeline : Tracks source pipeline pipelineForm {} Finishes := by
  rw [Reader.pipelineForm_eq]
  refine tracks_blanks hpatience
    (tracks_spacedCommand hpatience {} rfl rfl fun first hfirst c => ?_)
  obtain ⟨word, words, rfl⟩ := List.exists_cons_of_ne_nil hfirst
  refine (reads_redirection hpatience (by decide) _ c _).andThen rfl fun input b hinput => ?_
  refine tracks_blanks hpatience fun d => ?_
  refine (reads_furtherCommands hpatience d b).andThen rfl fun others b' hothers e => ?_
  refine (reads_redirection hpatience (by decide) _ e b').andThen rfl fun output b'' houtput => ?_
  subst hinput hothers houtput
  rw [Builder.redirect_foldl_command]
  exact tracks_ending hpatience (assemble (word :: words) others input output)

theorem tracks_blank : Tracks source blank blankForm {} Finishes :=
  fun c => (leads_skipBlanks hpatience c _).reads (reads_holds _ rfl)

theorem tracks_forms :
    List.Forall₂ (fun x form => Tracks source x form {} Finishes) forms Line.forms :=
  .cons (tracks_exit hpatience) (.cons (tracks_directory hpatience)
    (.cons (tracks_pipeline hpatience) (.cons (tracks_blank hpatience) .nil)))

end

theorem builds_firstForm {scans : List (Scan Bool)} {readers : List Form}
    (h : List.Forall₂ (fun x form => Tracks source x form {} Finishes) scans readers)
    (c : Cursor) (b : Builder) :
    ∃ d b', Builds source (firstForm scans) c b
      (Line.firstForm source.line.toList readers c.furthest) d b' := by
  induction h generalizing c b with
  | nil =>
    refine ⟨c, b, fun s hs => ⟨s, ?_, hs⟩⟩
    rw [Line.firstForm, ← hs.furthest_eq]
    rfl
  | @cons x form scans readers hx _ ih =>
    rw [Line.firstForm]
    obtain ⟨b', h, htold⟩ := hx { rest := source.line.toList, furthest := c.furthest }
    rcases hc : form { rest := source.line.toList, furthest := c.furthest } with ⟨_ | action, d⟩
    · rw [hc] at h
      obtain ⟨e, b'', he⟩ := ih d b'
      exact ⟨e, b'', (builds_rewind c b).bind (h.bind he)⟩
    · rw [hc] at h
      have hfinish : b'.finish = action := htold action (congrArg Prod.fst hc)
      have hend : Leads source atEnd d _ d := leads_atEnd d
      dsimp only
      cases hatEnd : d.atEnd with
      | true =>
        rw [hatEnd] at hend
        have hgive : Builds source (do return .ok (← get).builder.finish) d b'
            (.ok action : Except Unreadable Action) d b' :=
          fun s hs => ⟨s, by rw [← hfinish, ← hs.builder_eq]; rfl, hs⟩
        exact ⟨d, b', (builds_rewind c b).bind (h.bind ((hend b').bind hgive))⟩
      | false =>
        rw [hatEnd] at hend
        obtain ⟨e, b'', he⟩ := ih d b'
        exact ⟨e, b'', (builds_rewind c b).bind (h.bind ((hend b').bind he))⟩

end Scan

/-- A line is scanned on its bytes to the end, and what is read is what the line says. On the way,
before the furthest index that was reached is nothing but ASCII, texts are cut out between
boundaries only, and every turn of a loop moves forward. -/
theorem scan_keeps_to_line (line : String) (patience : Nat)
    (h : (Bytes.ofString line).length < patience) :
    ∃ stand, scan line patience = .ok (read line, stand) ∧
      ∀ entry ∈ stand.history, entry.Safe line := by
  have hstart : Stand.At line {} { rest := line.toList } {} :=
    ⟨rfl, rfl, rfl, ⟨rfl, Nat.le_refl 0, Nat.zero_le _, fun _ h => nomatch h⟩, fun _ h => nomatch h⟩
  have hforms : List.Forall₂ (fun x form => Scan.Tracks ⟨line, patience⟩ x form {} Scan.Finishes)
      Scan.forms forms :=
    Scan.tracks_forms h
  obtain ⟨c, b, hbuilds⟩ := Scan.builds_firstForm hforms { rest := line.toList } {}
  obtain ⟨stand, hrun, hstand⟩ := hbuilds {} hstart
  exact ⟨stand, hrun, hstand.safe⟩

/-- Before a bar, a blank that was moved over is given back; behind the bar, no byte of a character
outside ASCII is moved over. -/
theorem scan_of_strange_command : (Bytes.ofString "a |é").length < 6 ∧
    ∃ stand, scan "a |é" 6 = .ok (.error ⟨4⟩, stand) ∧
      .stands 1 2 ∈ stand.history ∧ .turns 2 3 ∈ stand.history ∧
      ∀ entry ∈ stand.history, entry.Safe "a |é" := by
  have hlength : (Bytes.ofString "a |é").length < 6 := by decide +kernel
  have hread : read "a |é" = .error ⟨4⟩ := by decide +kernel
  have hnoted : (scan "a |é" 6).toOption.all fun r =>
      decide (.stands 1 2 ∈ r.2.history ∧ .turns 2 3 ∈ r.2.history) := by decide +kernel
  obtain ⟨stand, hscan, hsafe⟩ := scan_keeps_to_line "a |é" 6 hlength
  rw [hscan] at hnoted
  obtain ⟨hstands, hturns⟩ := of_decide_eq_true hnoted
  exact ⟨hlength, stand, hread ▸ hscan, hstands, hturns, hsafe⟩

end PipeShell.Line
