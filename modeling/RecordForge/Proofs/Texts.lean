import Mathlib.Data.List.Nodup
import Mathlib.Data.Set.List
import Mathlib.Data.Vector.Defs
import RecordForge.Proofs.Calls
import RecordForge.Proofs.Recordings

/-!
# Random texts

The draws of a random text say first how many characters there are beyond the least number of them, and then
which ones. Different draws make different texts, and every text of an allowed length has its draws.

* `letter`, `letter_injective`: the characters of the alphabet, each one once.
* `drawEach`: a number of draws below one bound; `drawChars_eq`: random characters are such draws.
* `TextDraws`, `TextDraws.text`: the draws of a text, and the text that they make.
* `TextDraws.draw`, `draw_replay`: these draws from a source, and from one that has them written down.
* `IsText`, `text_bijOn`: what a text may be, and that draws and texts match.
* `next_textsBelow`, `leaves_textsBelow`: a call of a generator of texts, and the draws that it makes.
* `DrawsTexts`: what a generator of texts does.
* **`random_texts_of_draws`**: the texts of a field that asks for random ones.
-/

namespace RecordForge

open Dialog

/-! ## Characters -/

/-- The character of the alphabet that a draw stands for. -/
def letter (i : Fin 75) : Char := alphabet.get i

/-- There are characters to draw from. -/
theorem alphabet_pos : 0 < 75 := Nat.succ_pos 74

theorem alphabet_nodup : alphabet.toList.Nodup := by decide +kernel

/-- No character is in the alphabet twice. -/
theorem letter_injective : Function.Injective letter := by
  intro i j h
  have hinjective := List.nodup_iff_injective_getElem.mp alphabet_nodup
  have hsame := @hinjective (i.cast alphabet.length_toList.symm) (j.cast alphabet.length_toList.symm) h
  exact Fin.ext (Fin.mk.inj hsame)

theorem mem_range_letter {c : Char} : c ∈ Set.range letter ↔ c ∈ alphabet := by
  rw [Vector.mem_iff_getElem]
  constructor
  · rintro ⟨i, rfl⟩
    exact ⟨i, i.isLt, rfl⟩
  · rintro ⟨i, hi, rfl⟩
    exact ⟨⟨i, hi⟩, rfl⟩

/-! ## Draws below one bound -/

/-- A number of draws below one bound. -/
def drawEach (bound : Nat) (h : 0 < bound) : (n : Nat) → Drawing (List.Vector (Fin bound) n)
  | 0 => .pure .nil
  | n + 1 => .bind (.below bound h) fun i =>
    .bind (drawEach bound h n) fun picks => .pure (picks.cons i)

/-- Draws below one bound, as they are written down. -/
def writtenEach {bound : Nat} (picks : List (Fin bound)) : List Drawn := picks.map fun i => .below i.val

theorem writtenEach_cons {bound : Nat} (i : Fin bound) (picks : List (Fin bound)) :
    writtenEach (i :: picks) = .below i :: writtenEach picks := rfl

section Each

variable {σ : Type} [Source σ]

/-- Random characters are so many draws below the size of the alphabet. -/
theorem drawChars_eq : ∀ (n : Nat) (s : σ), drawChars n s =
    ((drawEach 75 alphabet_pos n σ s).1.toList.map letter, (drawEach 75 alphabet_pos n σ s).2)
  | 0, _ => rfl
  | n + 1, s => by
    simp only [drawChars, drawChars_eq n]
    rfl

variable {bound : Nat} (h : 0 < bound)

/-- So many draws and no others are made. -/
theorem leaves_drawEach [FixedReach σ] : ∀ (n : Nat) (s : σ),
    (drawEach bound h n).Leaves s (writtenEach (drawEach bound h n σ s).1.toList)
  | 0, s => .pure _ s
  | n + 1, s => by
    have hwritten : writtenEach (drawEach bound h (n + 1) σ s).1.toList =
        [.below (Source.below bound h s).1.val] ++
          (writtenEach (drawEach bound h n σ (Source.below bound h s).2).1.toList ++ []) := by
      rw [List.append_nil]
      exact congrArg writtenEach (List.Vector.toList_cons _ _)
    rw [hwritten]
    exact (Drawing.leaves_below h s).bind ((leaves_drawEach n _).bind (.pure _ _))

/-- Written draws are given as they are. -/
theorem drawEach_replay (rest : List Drawn) (reach : Option Nat) :
    ∀ {n : Nat} (picks : List.Vector (Fin bound) n),
      drawEach bound h n Replay ⟨writtenEach picks.toList ++ rest, reach⟩ = (picks, ⟨rest, reach⟩)
  | 0, picks => by
    obtain rfl := picks.eq_nil
    rfl
  | n + 1, picks => by
    obtain ⟨i, picks, rfl⟩ : ∃ i tail, picks = .cons i tail := ⟨_, _, picks.cons_head_tail.symm⟩
    rw [List.Vector.toList_cons, writtenEach_cons, List.cons_append]
    rw [drawEach, Drawing.bind_apply _ (Drawing.below_replay h i _ reach),
      Drawing.bind_apply _ (drawEach_replay rest reach picks)]
    rfl

end Each

/-! ## The draws of a text -/

/-- The draws of a text of at least `lower` and fewer than `upper` characters. -/
structure TextDraws (lower upper : Nat) where
  /-- How many characters there are beyond the least number of them. -/
  extra : Fin (upper - lower)
  /-- The places of the characters in the alphabet. -/
  picks : List.Vector (Fin 75) (lower + extra)

namespace TextDraws

variable {lower upper : Nat}

/-- The text that draws make. -/
def text (ds : TextDraws lower upper) : String := String.ofList (ds.picks.toList.map letter)

/-- The draws as they are written down. -/
def written (ds : TextDraws lower upper) : List Drawn := .below ds.extra :: writtenEach ds.picks.toList

/-- The draws of a text from a source: one for the length, and then one for each character. -/
def draw (hlt : lower < upper) : Drawing (TextDraws lower upper) :=
  .bind (.below (upper - lower) (Nat.sub_pos_of_lt hlt)) fun extra =>
    .bind (drawEach 75 alphabet_pos (lower + extra)) fun picks => .pure ⟨extra, picks⟩

/-- These draws and no others are made. -/
theorem leaves_draw {σ : Type} [Source σ] [FixedReach σ] (hlt : lower < upper) (s : σ) :
    (draw hlt).Leaves s (draw hlt σ s).1.written := by
  have hwritten : (draw hlt σ s).1.written =
      [.below (draw hlt σ s).1.extra.val] ++ (writtenEach (draw hlt σ s).1.picks.toList ++ []) := by
    rw [List.append_nil]
    rfl
  rw [hwritten]
  exact (Drawing.leaves_below _ s).bind ((leaves_drawEach _ _ _).bind (.pure _ _))

/-- A source that has the draws of a text written down gives them. -/
theorem draw_replay (hlt : lower < upper) (ds : TextDraws lower upper) (rest : List Drawn)
    (reach : Option Nat) : draw hlt Replay ⟨ds.written ++ rest, reach⟩ = (ds, ⟨rest, reach⟩) := by
  rw [draw, written, List.cons_append, Drawing.bind_apply _ (Drawing.below_replay _ ds.extra _ reach),
    Drawing.bind_apply _ (drawEach_replay _ rest reach ds.picks)]
  rfl

/-- Draws of the same characters are the same draws. -/
theorem eq_of_picks {ds es : TextDraws lower upper} (h : ds.picks.toList = es.picks.toList) : ds = es := by
  obtain ⟨e, p⟩ := ds
  obtain ⟨f, q⟩ := es
  have hlength := congrArg List.length h
  rw [List.Vector.toList_length, List.Vector.toList_length] at hlength
  obtain rfl : e = f := Fin.ext (Nat.add_left_cancel hlength)
  rw [List.Vector.eq p q h]

end TextDraws

/-- A text of the alphabet of at least `lower` and fewer than `upper` characters. -/
def IsText (lower upper : Nat) (t : String) : Prop :=
  lower ≤ t.length ∧ t.length < upper ∧ ∀ c ∈ t.toList, c ∈ alphabet

section Texts

variable {lower upper : Nat}

theorem isText_text (ds : TextDraws lower upper) : IsText lower upper ds.text := by
  have hlength : ds.text.length = lower + ds.extra := by
    rw [TextDraws.text, String.length_ofList, List.length_map, List.Vector.toList_length]
  have hextra := ds.extra.isLt
  refine ⟨by omega, by omega, fun c hc => ?_⟩
  rw [TextDraws.text, String.toList_ofList] at hc
  obtain ⟨i, -, rfl⟩ := List.mem_map.mp hc
  exact mem_range_letter.mp ⟨i, rfl⟩

/-- Different draws make different texts. -/
theorem text_injective : Function.Injective fun ds : TextDraws lower upper => ds.text := by
  intro ds es h
  have hletters := String.ofList_injective h
  exact TextDraws.eq_of_picks (List.map_injective_iff.mpr letter_injective hletters)

/-- Every text has its draws. -/
theorem exists_draws {t : String} (ht : IsText lower upper t) :
    ∃ ds : TextDraws lower upper, ds.text = t := by
  obtain ⟨hleast, hgreatest, hletters⟩ := ht
  obtain ⟨picks, hpicks⟩ : t.toList ∈ Set.range (List.map letter) := by
    rw [Set.range_list_map]
    exact fun c hc => mem_range_letter.mpr (hletters c hc)
  have hlength : picks.length = t.length := by
    rw [← List.length_map letter, hpicks, String.length_toList]
  refine ⟨⟨⟨t.length - lower, by omega⟩, ⟨picks, by simp only; omega⟩⟩, ?_⟩
  rw [TextDraws.text, List.Vector.toList_mk, hpicks, String.ofList_toList]

/-- **Draws and texts match**: each text is made by draws, and by no two. -/
theorem text_bijOn (lower upper : Nat) :
    Set.BijOn (fun ds : TextDraws lower upper => ds.text) Set.univ {t | IsText lower upper t} :=
  ⟨fun ds _ => isText_text ds, fun _ _ _ _ h => text_injective h, fun _ ht =>
    (exists_draws ht).imp fun _ hds => ⟨trivial, hds⟩⟩

end Texts

/-! ## Calls -/

/-- The generator of texts of at least `lower` and fewer than `upper` characters. -/
def textsBelow (lower upper : Nat) : Generator := .text lower (upper - lower : Nat)

section Calls

variable {σ : Type} [Source σ] {lower upper : Nat}

/-- A draw below a positive number that the source reaches is a draw of the source. -/
theorem Draw.below_natCast {bound : Nat} (hpos : 0 < bound) {s : σ} (hreach : Source.Reaches s bound) :
    Draw.below bound s = (.ok (Source.below bound hpos s).1.val, (Source.below bound hpos s).2) := by
  rw [Draw.below, dif_pos (Int.natCast_pos.mpr hpos), if_pos hreach]
  rfl

/-- A call makes the draws of a text and gives that text. -/
theorem next_textsBelow (hlt : lower < upper) {s : σ}
    (hreach : Source.Reaches s (upper - lower : Nat)) :
    (textsBelow lower upper).next s =
      (.ok (.text (TextDraws.draw hlt σ s).1.text), textsBelow lower upper, (TextDraws.draw hlt σ s).2) := by
  have hcount : ∀ extra : Nat, ((extra : Int) + lower).toNat = lower + extra := by omega
  rw [textsBelow, Generator.next, Draw.below_natCast (Nat.sub_pos_of_lt hlt) hreach]
  simp only [hcount, drawChars_eq]
  rfl

/-- A call that gives a value has a source that reaches as far as it draws. -/
theorem reaches_of_next (hlt : lower < upper) {s : σ} {v : Value}
    (h : ((textsBelow lower upper).next s).1 = .ok v) : Source.Reaches s (upper - lower : Nat) := by
  by_contra hreach
  rw [textsBelow, Generator.next, Draw.below, dif_pos (by omega), if_neg hreach] at h
  cases h

/-- A call makes the draws of a text and no others. -/
theorem leaves_textsBelow [FixedReach σ] (hlt : lower < upper) {s : σ}
    (hreach : Source.Reaches s (upper - lower : Nat)) :
    (textsBelow lower upper).call.Leaves s (TextDraws.draw hlt σ s).1.written := by
  have hall : ((TextDraws.draw hlt).bind fun ds =>
      .pure ((.ok (.text ds.text) : Except Failure Value), textsBelow lower upper)).Leaves s
        ((TextDraws.draw hlt σ s).1.written ++ []) := (TextDraws.leaves_draw hlt s).bind (.pure _ _)
  rw [List.append_nil] at hall
  refine hall.congr fun τ _ u hu => ?_
  have hreaches : Source.Reaches u (upper - lower : Nat) := by rwa [Source.Reaches, hu]
  rw [Generator.call, next_textsBelow hlt hreaches]
  rfl

/-- The generator of texts stays as it is. -/
theorem after_textsBelow (k : Nat) (u : σ) :
    ((textsBelow lower upper).after k u).1 = textsBelow lower upper :=
  Generator.after_eq_self (fun _ hmoves => by cases hmoves; rfl) k u

end Calls

/-! ## Random texts of a field -/

/-- The calls of a generator give the texts of at least `lower` and fewer than `upper` characters. -/
structure DrawsTexts (g : Generator) {lower upper : Nat} (hlt : lower < upper) : Prop where
  /-- A call draws a text and gives it. -/
  calls : ∀ (σ : Type) [Source σ] (u : σ), Source.Reaches u (upper - lower : Nat) →
    g.next u = (.ok (.text (TextDraws.draw hlt σ u).1.text), g, (TextDraws.draw hlt σ u).2)
  /-- It makes these draws and no others. -/
  leaves : ∀ (σ : Type) [Source σ] [FixedReach σ] (u : σ), Source.Reaches u (upper - lower : Nat) →
    g.call.Leaves u (TextDraws.draw hlt σ u).1.written
  /-- All draws of a text are possible. -/
  possible : ∀ ds : TextDraws lower upper, ∃ (σ : Type) (_ : Source σ) (u : σ),
    Source.Reaches u (upper - lower : Nat) ∧ (TextDraws.draw hlt σ u).1 = ds
  /-- Draws and texts match. -/
  bijOn : Set.BijOn (fun ds : TextDraws lower upper => ds.text) Set.univ {t | IsText lower upper t}
  /-- All calls with all sources together give these texts and nothing else. -/
  values : ∀ v : Value, (∃ (σ : Type) (_ : Source σ) (u : σ) (k : Nat), g.nth k u = .ok v) ↔
    ∃ t, IsText lower upper t ∧ v = .text t

/-- A source that has the draws of a text written down. -/
theorem possible_draws {lower upper : Nat} (hlt : lower < upper) (ds : TextDraws lower upper) :
    ∃ u : Replay, Source.Reaches u (upper - lower : Nat) ∧ (TextDraws.draw hlt Replay u).1 = ds := by
  refine ⟨⟨ds.written ++ [], none⟩, Replay.reaches _ _, ?_⟩
  rw [TextDraws.draw_replay]

theorem drawsTexts_textsBelow {lower upper : Nat} (hlt : lower < upper) :
    DrawsTexts (textsBelow lower upper) hlt where
  calls _ _ _ hreach := next_textsBelow hlt hreach
  leaves _ _ _ _ hreach := leaves_textsBelow hlt hreach
  possible ds := ⟨Replay, inferInstance, possible_draws hlt ds⟩
  bijOn := text_bijOn lower upper
  values v := by
    constructor
    · rintro ⟨σ, hsource, u, k, hv⟩
      rw [Generator.nth, after_textsBelow] at hv
      rw [next_textsBelow hlt (reaches_of_next hlt hv)] at hv
      exact ⟨_, isText_text _, (Except.ok.inj hv).symm⟩
    · rintro ⟨t, ht, rfl⟩
      obtain ⟨ds, rfl⟩ := exists_draws ht
      obtain ⟨u, hreach, rfl⟩ := possible_draws hlt ds
      refine ⟨Replay, inferInstance, u, 0, ?_⟩
      rw [Generator.nth, Generator.after, next_textsBelow hlt hreach]

/-- The generator of a strategy for random texts is that of the texts between two lengths. -/
theorem generator_of_lengths {d : Descriptor} {strategy : Strategy} (hvalid : strategy.Valid d)
    (hkind : d.kind = .string) (hitems : strategy.items = none) :
    ∃ lower upper : Nat, strategy.bounds = .integers lower upper ∧ lower < upper ∧
      strategy.generator d = .ok (textsBelow lower upper) := by
  obtain ⟨lower, upper, hspan⟩ := hvalid.lengthSpan hkind hitems
  have hproper := hspan.proper
  lift lower to Nat using hspan.nonneg
  lift upper to Nat using by omega
  have hlt : lower < upper := Int.ofNat_lt.mp hproper
  refine ⟨lower, upper, hspan.bounds, hlt, ?_⟩
  simp only [Strategy.generator, hkind, Strategy.textGenerator, hitems, hspan.bounds, textsBelow,
    Int.ofNat_sub (Nat.le_of_lt hlt)]

/-- **The random texts of a field.** Take a strategy without items for a `string` field that a dialog lets pass.
Its bounds are a least length and a greater one. A call of its generator draws, below the difference of the
bounds, how many characters there are beyond the least number, then each character, below the size of the
alphabet, and nothing else. All such draws are possible. They match the texts of the alphabet with at least as
many characters as the lower bound and fewer than the upper one: each of these is made by draws, and by no two. -/
theorem random_texts_of_draws {name : String} {d : Descriptor} {strategy : Strategy} {s t : Session}
    (hkind : d.kind = .string) (hitems : strategy.items = none)
    (h : (askStrategy name d).run s = (.ok strategy, t)) :
    ∃ (lower upper : Nat) (hlt : lower < upper) (g : Generator),
      strategy.bounds = .integers lower upper ∧ strategy.generator d = .ok g ∧ DrawsTexts g hlt := by
  have hvalid : strategy.Valid d := askStrategy_ok h
  obtain ⟨lower, upper, hbounds, hlt, hbuilt⟩ := generator_of_lengths hvalid hkind hitems
  exact ⟨lower, upper, hlt, _, hbounds, hbuilt, drawsTexts_textsBelow hlt⟩

/-- In the order that the mode `incr` asks for there is nothing but items; without them the texts, here of two or
three characters, are random. -/
theorem random_texts_of_draws_short : ∃ strategy t g,
    (askStrategy "code" (.plain "code" .string)).run ⟨["incr from 2 to 4"], []⟩ = (.ok strategy, t) ∧
      strategy.mode = .incr ∧ strategy.generator (.plain "code" .string) = .ok g ∧
      ∀ v, (∃ (σ : Type) (_ : Source σ) (u : σ) (k : Nat), g.nth k u = .ok v) ↔
        ∃ t, (2 ≤ t.length ∧ t.length < 4 ∧ ∀ c ∈ t.toList, c ∈ alphabet) ∧ v = .text t := by
  obtain ⟨strategy, t, h, hs⟩ : ∃ strategy t,
      (askStrategy "code" (.plain "code" .string)).run ⟨["incr from 2 to 4"], []⟩ = (.ok strategy, t) ∧
      strategy = { mode := .incr, bounds := .integers 2 4 } := ⟨_, _, rfl, rfl⟩
  subst hs
  obtain ⟨lower, upper, hlt, g, hbounds, hg, hdraws⟩ := random_texts_of_draws rfl rfl h
  obtain ⟨hlower, hupper⟩ := Bounds.integers.inj hbounds
  obtain rfl : lower = 2 := by omega
  obtain rfl : upper = 4 := by omega
  exact ⟨_, t, g, h, rfl, hg, hdraws.values⟩

end RecordForge
