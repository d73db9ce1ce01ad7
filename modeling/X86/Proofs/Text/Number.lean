import Mathlib.Data.Nat.Digits.Defs
import X86.Text.Number

/-!
# Which texts are numbers

The grammar of the numbers that users type, and the reader against it.

* `Numeral base cs v`: digits with an optional plus sign, which denote `v`.
* `readNumber_eq_ok`: **the reader accepts the numerals below its limit, with their values.**
* `Denotes cs v`: a decimal numeral, or a hexadecimal one behind its mark.
* `SplitsMark t`: a character lies across the place where a base mark would end.
* `parseNumber_denotes`: **a text is accepted exactly if the grammar gives it a value of 32 bits.**
  All others are refused, and those that split a character do not even get that far.
-/

namespace X86

variable {base limit v n d : Nat} {c : Char} {cs : List Char} {ds : List Nat}

/-! ### Digits -/

/-- The character is the digit `d` of the base; letters of both cases are digits. -/
def IsDigit (base : Nat) (c : Char) (d : Nat) : Prop :=
  d < base ∧ (c = Nat.digitChar d ∨ c = (Nat.digitChar d).toUpper)

/-- The characters are the digits `ds`, one for one. -/
abbrev Spells (base : Nat) (cs : List Char) (ds : List Nat) : Prop :=
  List.Forall₂ (IsDigit base) cs ds

/-- Where the digits stand among the characters. -/
theorem toNat_digitChar : ∀ d < 16,
    d < 10 ∧ (Nat.digitChar d).toNat = 48 + d ∧ (Nat.digitChar d).toUpper.toNat = 48 + d ∨
      10 ≤ d ∧ (Nat.digitChar d).toNat = 87 + d ∧ (Nat.digitChar d).toUpper.toNat = 55 + d := by
  decide

theorem digitValue?_eq_some_iff (hBase : base ≤ 16) :
    digitValue? base c = some d ↔ IsDigit base c d := by
  have hNumerals : '0' ≤ c ∧ c ≤ '9' ↔ 48 ≤ c.toNat ∧ c.toNat ≤ 57 := .rfl
  have hLower : 'a' ≤ c ∧ c ≤ 'z' ↔ 97 ≤ c.toNat ∧ c.toNat ≤ 122 := .rfl
  have hUpper : 'A' ≤ c ∧ c ≤ 'Z' ↔ 65 ≤ c.toNat ∧ c.toNat ≤ 90 := .rfl
  have hStarts : '0'.toNat = 48 ∧ 'a'.toNat = 97 ∧ 'A'.toNat = 65 := ⟨rfl, rfl, rfl⟩
  simp only [digitValue?, hNumerals, hLower, hUpper, hStarts, IsDigit, ← Char.toNat_inj,
    Option.ite_none_right_eq_some, Option.some.injEq]
  constructor
  · rintro ⟨hLt, hd⟩
    have hPlaces := toNat_digitChar d (by omega)
    split_ifs at hLt hd <;> omega
  · rintro ⟨hLt, hd⟩
    have hPlaces := toNat_digitChar d (by omega)
    split_ifs <;> omega

/-- A digit is neither a sign nor a mark, and takes a single byte. -/
theorem IsDigit.toNat_range (h : IsDigit base c d) (hBase : base ≤ 16) :
    48 ≤ c.toNat ∧ c.toNat ≤ 102 ∧ (base ≤ 10 → c.toNat ≤ 57) := by
  have hLt := h.1
  have hPlaces := toNat_digitChar d (by omega)
  have hChar : c.toNat = (Nat.digitChar d).toNat ∨ c.toNat = (Nat.digitChar d).toUpper.toNat :=
    h.2.imp (congrArg Char.toNat) (congrArg Char.toNat)
  omega

/-- The digits behind `v`, the most significant first, as one number. -/
def appendDigits (base : Nat) (v : Nat) (ds : List Nat) : Nat :=
  ds.foldl (fun v d => v * base + d) v

theorem le_appendDigits (hPos : 0 < base) (v : Nat) (ds : List Nat) :
    v ≤ appendDigits base v ds := by
  induction ds generalizing v with
  | nil => exact Nat.le_refl v
  | cons d ds ih =>
    calc
      v ≤ v * base := Nat.le_mul_of_pos_right v hPos
      _ ≤ v * base + d := Nat.le_add_right _ _
      _ ≤ appendDigits base v (d :: ds) := ih _

theorem ofDigits_reverse (base : Nat) (ds : List Nat) :
    Nat.ofDigits base ds.reverse = appendDigits base 0 ds := by
  rw [Nat.ofDigits_eq_foldr, List.foldr_reverse, appendDigits]
  congr
  funext v d
  rw [Nat.cast_id, Nat.add_comm, Nat.mul_comm]

/-- Behind digits that have come to `v` the reader accepts digits that do not reach the limit. -/
theorem readDigits_eq_ok (hPos : 0 < base) (hBase : base ≤ 16) (hv : v < limit) :
    readDigits base limit v cs = .ok n ↔
      ∃ ds, Spells base cs ds ∧ n = appendDigits base v ds ∧ n < limit := by
  induction cs generalizing v with
  | nil =>
    constructor
    · rintro ⟨⟩
      exact ⟨[], .nil, rfl, hv⟩
    · rintro ⟨_, ⟨⟩, rfl, -⟩
      rfl
  | cons c cs ih =>
    rw [readDigits]
    constructor
    · intro h
      split at h
      · cases h
      · rename_i d hd
        dsimp only at h
        split at h
        · rename_i hNext
          obtain ⟨ds, hSpells, hn, hLimit⟩ := (ih hNext).1 h
          exact ⟨d :: ds, .cons ((digitValue?_eq_some_iff hBase).1 hd) hSpells, hn, hLimit⟩
        · cases h
    · rintro ⟨ds, hSpells, hn, hLimit⟩
      cases hSpells with
      | @cons _ d _ ds hd hSpells =>
        -- what has been read never shrinks, so no part of an accepted number is too large
        have hNext : v * base + d < limit :=
          Nat.lt_of_le_of_lt (le_appendDigits hPos _ ds) (hn ▸ hLimit)
        rw [(digitValue?_eq_some_iff hBase).2 hd]
        dsimp only
        rw [if_pos hNext]
        exact (ih hNext).2 ⟨ds, hSpells, hn, hLimit⟩

/-! ### Numerals -/

/-- A number written in the base: at least one digit, with or without a plus sign. -/
inductive Numeral (base : Nat) : List Char → Nat → Prop where
  | unsigned {cs : List Char} {ds : List Nat} (hSome : cs ≠ []) (h : Spells base cs ds) :
    Numeral base cs (Nat.ofDigits base ds.reverse)
  | plus {cs : List Char} {ds : List Nat} (hSome : cs ≠ []) (h : Spells base cs ds) :
    Numeral base ('+' :: cs) (Nat.ofDigits base ds.reverse)

/-- A sign is no digit. -/
theorem not_isDigit_sign (hBase : base ≤ 16) (hSign : c = '+' ∨ c = '-') : ¬ IsDigit base c d := by
  intro hd
  have hRange := hd.toNat_range hBase
  rcases hSign with rfl | rfl
  · exact absurd hRange.1 (by decide)
  · exact absurd hRange.1 (by decide)

theorem readNumber_plus (hSome : cs ≠ []) :
    readNumber base limit ('+' :: cs) = readDigits base limit 0 cs := by
  cases cs with
  | nil => exact absurd rfl hSome
  | cons c cs => rfl

/-- Without a plus sign all characters are read as digits; a lone minus sign is refused like any
other character that is no digit. -/
theorem readNumber_cons_of_ne (hBase : base ≤ 16) (hc : c ≠ '+') :
    readNumber base limit (c :: cs) = readDigits base limit 0 (c :: cs) := by
  by_cases hMinus : c = '-' ∧ cs = []
  · obtain ⟨rfl, rfl⟩ := hMinus
    have hNone : digitValue? base '-' = none := Option.eq_none_iff_forall_ne_some.2 fun d hd =>
      not_isDigit_sign hBase (.inr rfl) ((digitValue?_eq_some_iff hBase).1 hd)
    rw [readDigits, hNone]
    rfl
  · unfold readNumber
    split
    · contradiction
    · rename_i hEq
      cases hEq
      exact absurd rfl hc
    · rename_i hEq
      cases hEq
      exact absurd ⟨rfl, rfl⟩ hMinus
    · rename_i hEq
      cases hEq
      exact absurd rfl hc
    · rfl

/-- **The reader accepts the numerals below its limit, with their values.** -/
theorem readNumber_eq_ok (hPos : 0 < base) (hBase : base ≤ 16) (hLimit : 0 < limit) :
    readNumber base limit cs = .ok n ↔ Numeral base cs n ∧ n < limit := by
  have hDigits (cs : List Char) : readDigits base limit 0 cs = .ok n ↔
      ∃ ds, Spells base cs ds ∧ n = Nat.ofDigits base ds.reverse ∧ n < limit := by
    simp only [readDigits_eq_ok hPos hBase hLimit, ofDigits_reverse]
  constructor
  · intro h
    cases cs with
    | nil => cases h
    | cons c cs =>
      by_cases hPlus : c = '+'
      · subst hPlus
        by_cases hSome : cs = []
        · subst hSome
          cases h
        · rw [readNumber_plus hSome, hDigits] at h
          obtain ⟨ds, hSpells, rfl, hn⟩ := h
          exact ⟨.plus hSome hSpells, hn⟩
      · rw [readNumber_cons_of_ne hBase hPlus, hDigits] at h
        obtain ⟨ds, hSpells, rfl, hn⟩ := h
        exact ⟨.unsigned (List.cons_ne_nil c cs) hSpells, hn⟩
  · rintro ⟨hNumeral, hn⟩
    cases hNumeral with
    | plus hSome hSpells =>
      rw [readNumber_plus hSome, hDigits]
      exact ⟨_, hSpells, rfl, hn⟩
    | unsigned hSome hSpells =>
      cases hSpells with
      | nil => exact absurd rfl hSome
      | cons hd hSpells =>
        have hPlus : _ ≠ '+' := fun hPlus => not_isDigit_sign hBase (.inl hPlus) hd
        rw [readNumber_cons_of_ne hBase hPlus, hDigits]
        exact ⟨_, .cons hd hSpells, rfl, hn⟩

/-! ### Texts -/

/-- What a text without underscores denotes: a decimal numeral its value, a hexadecimal one behind
`0x` or `0X` its value. -/
inductive Denotes : List Char → Nat → Prop where
  | decimal {cs : List Char} {v : Nat} (h : Numeral 10 cs v) : Denotes cs v
  | hexadecimal {cs : List Char} {v : Nat} {x : Char} (hMark : x = 'x' ∨ x = 'X')
    (h : Numeral 16 cs v) : Denotes ('0' :: x :: cs) v

theorem utf8ByteSize_ofList_cons (c : Char) (cs : List Char) :
    (String.ofList (c :: cs)).utf8ByteSize = c.utf8Size + (String.ofList cs).utf8ByteSize := by
  rw [String.ofList_cons, String.utf8ByteSize_append, String.utf8ByteSize_singleton]

theorem isValid_ofList_zero (h : n = 0) : String.Pos.Raw.IsValid (String.ofList cs) ⟨n⟩ :=
  String.Pos.Raw.isValid_ofList.2 ⟨0, h⟩

/-- Behind the first character the boundaries are those of the rest. -/
theorem isValid_ofList_cons :
    String.Pos.Raw.IsValid (String.ofList (c :: cs)) ⟨n⟩ ↔
      n = 0 ∨ c.utf8Size ≤ n ∧ String.Pos.Raw.IsValid (String.ofList cs) ⟨n - c.utf8Size⟩ := by
  simp only [String.Pos.Raw.isValid_ofList]
  constructor
  · rintro ⟨_ | i, hi⟩
    · exact .inl hi
    · rw [List.take_succ_cons, utf8ByteSize_ofList_cons] at hi
      exact .inr ⟨by omega, i, by omega⟩
  · rintro (rfl | ⟨hLe, i, hi⟩)
    · exact ⟨0, rfl⟩
    · refine ⟨i + 1, ?_⟩
      rw [List.take_succ_cons, utf8ByteSize_ofList_cons]
      omega

/-- The text has bytes enough for a base mark, but a character lies across the end of these two. -/
def SplitsMark (t : String) : Prop := 2 ≤ t.utf8ByteSize ∧ ¬ String.Pos.Raw.IsValid t ⟨2⟩

theorem dropTwoBytes?_eq_none_iff : dropTwoBytes? cs = none ↔ SplitsMark (String.ofList cs) := by
  rw [SplitsMark]
  cases cs with
  | nil => exact iff_of_false (Option.some_ne_none []) fun h => absurd h.1 (by decide)
  | cons c cs =>
    have hc := c.utf8Size_pos
    unfold dropTwoBytes?
    dsimp only
    rw [utf8ByteSize_ofList_cons, isValid_ofList_cons]
    rcases Nat.lt_trichotomy c.utf8Size 2 with hLt | hTwo | hGt
    · rw [if_neg (by omega), if_pos (by omega)]
      cases cs with
      | nil => exact iff_of_false (Option.some_ne_none []) fun h => absurd h.1 (Nat.not_le.2 hLt)
      | cons d cs =>
        have hd := d.utf8Size_pos
        rw [utf8ByteSize_ofList_cons, isValid_ofList_cons]
        dsimp only
        by_cases hSingle : d.utf8Size = 1
        · rw [if_pos hSingle]
          refine iff_of_false (Option.some_ne_none cs) fun h => h.2 ?_
          exact .inr ⟨by omega, .inr ⟨by omega, isValid_ofList_zero (by omega)⟩⟩
        · rw [if_neg hSingle]
          exact iff_of_true rfl ⟨by omega, by omega⟩
    · rw [if_pos hTwo]
      refine iff_of_false (Option.some_ne_none cs) fun h => h.2 ?_
      exact .inr ⟨by omega, isValid_ofList_zero (by omega)⟩
    · rw [if_neg (by omega), if_neg (by omega)]
      exact iff_of_true rfl ⟨by omega, by omega⟩

/-- A text of single bytes can be divided anywhere. -/
theorem dropTwoBytes?_of_single (h : ∀ c ∈ cs, c.utf8Size = 1) :
    dropTwoBytes? cs = some (cs.drop 2) := by
  cases cs with
  | nil => rfl
  | cons c cs =>
    have hc : c.utf8Size = 1 := h c List.mem_cons_self
    cases cs with
    | nil =>
      rw [dropTwoBytes?, if_neg (by omega), if_pos hc]
      rfl
    | cons d cs =>
      have hd : d.utf8Size = 1 := h d (List.mem_cons_of_mem c List.mem_cons_self)
      rw [dropTwoBytes?, if_neg (by omega), if_pos hc]
      exact if_pos hd

theorem utf8Size_eq_of_spells (h : Spells base cs ds) (hBase : base ≤ 16) :
    ∀ c ∈ cs, c.utf8Size = 1 := by
  induction h with
  | nil => exact fun c hc => absurd hc List.not_mem_nil
  | cons hd _ ih =>
    have hRange := hd.toNat_range hBase
    refine List.forall_mem_cons.2 ⟨Char.utf8Size_eq_one_iff.2 ?_, ih⟩
    exact UInt32.le_iff_toNat_le.2 (Nat.le_trans hRange.2.1 (by decide))

theorem Numeral.utf8Size_eq (h : Numeral base cs v) (hBase : base ≤ 16) :
    ∀ c ∈ cs, c.utf8Size = 1 := by
  cases h with
  | unsigned hSome h => exact utf8Size_eq_of_spells h hBase
  | plus hSome h => exact List.forall_mem_cons.2 ⟨by decide, utf8Size_eq_of_spells h hBase⟩

/-- What the grammar knows consists of single bytes. -/
theorem Denotes.utf8Size_eq (h : Denotes cs v) : ∀ c ∈ cs, c.utf8Size = 1 := by
  cases h with
  | decimal h => exact h.utf8Size_eq (by decide)
  | @hexadecimal cs v x hMark h =>
    have hx : x.utf8Size = 1 := by
      rcases hMark with rfl | rfl
      · decide
      · decide
    exact List.forall_mem_cons.2
      ⟨by decide, List.forall_mem_cons.2 ⟨hx, h.utf8Size_eq (by decide)⟩⟩

/-- No decimal numeral begins with a mark. -/
theorem not_numeral_of_mark {a x : Char} (hMark : x = 'x' ∨ x = 'X') :
    ¬ Numeral 10 (a :: x :: cs) v := by
  have hDigit {d : Nat} : ¬ IsDigit 10 x d := by
    intro hd
    have hRange := (hd.toNat_range (by decide)).2.2 (by decide)
    rcases hMark with rfl | rfl
    · exact absurd hRange (by decide)
    · exact absurd hRange (by decide)
  intro h
  cases h with
  | unsigned hSome h =>
    rcases h with _ | ⟨_, _ | ⟨hd, _⟩⟩
    exact hDigit hd
  | plus hSome h =>
    rcases h with _ | ⟨hd, _⟩
    exact hDigit hd

/-- The text begins with a mark of base 16. -/
abbrev IsMarked (cs : List Char) : Prop := cs.take 2 = ['0', 'x'] ∨ cs.take 2 = ['0', 'X']

/-- What is read once the text could be divided: the digits behind the mark, or all of it. -/
def readMarked (cs : List Char) : Except NumberFault Nat :=
  if IsMarked cs then readNumber 16 0x100000000 (cs.drop 2) else readNumber 10 0x100000000 cs

theorem isMarked_iff : IsMarked cs ↔ ∃ x rest, (x = 'x' ∨ x = 'X') ∧ cs = '0' :: x :: rest := by
  constructor
  · intro h
    rcases cs with _ | ⟨a, _ | ⟨x, rest⟩⟩
    · simp [IsMarked] at h
    · simp [IsMarked] at h
    · have hTake : a = '0' ∧ (x = 'x' ∨ x = 'X') := by
        simp only [IsMarked, List.take_succ_cons, List.take_zero, List.cons.injEq, and_true] at h
        exact h.elim (fun h => ⟨h.1, .inl h.2⟩) fun h => ⟨h.1, .inr h.2⟩
      exact ⟨x, rest, hTake.2, by rw [hTake.1]⟩
  · rintro ⟨x, rest, rfl | rfl, rfl⟩
    · exact .inl rfl
    · exact .inr rfl

theorem readMarked_eq_ok : readMarked cs = .ok v ↔ Denotes cs v ∧ v < 0x100000000 := by
  rw [readMarked]
  split
  · rename_i h
    obtain ⟨x, rest, hMark, rfl⟩ := isMarked_iff.1 h
    rw [readNumber_eq_ok (by decide) (by decide) (by decide)]
    refine and_congr_left fun _ => ⟨.hexadecimal hMark, fun hDenotes => ?_⟩
    cases hDenotes with
    | decimal h => exact absurd h (not_numeral_of_mark hMark)
    | hexadecimal _ h => exact h
  · rename_i h
    rw [readNumber_eq_ok (by decide) (by decide) (by decide)]
    refine and_congr_left fun _ => ⟨.decimal, fun hDenotes => ?_⟩
    cases hDenotes with
    | decimal h => exact h
    | hexadecimal hMark _ => exact absurd (isMarked_iff.2 ⟨_, _, hMark, rfl⟩) h

/-- What users type, without its underscores. -/
def bareText (s : String) : String := String.ofList (s.toList.filter (· ≠ '_'))

theorem parseNumber_of_splits {s : String} (h : SplitsMark (bareText s)) :
    parseNumber s = .error .splitCharacter := by
  rw [parseNumber, dropTwoBytes?_eq_none_iff.2 h]

theorem drop_two_of_isMarked {rest : List Char} (h : IsMarked cs)
    (hRest : dropTwoBytes? cs = some rest) : cs.drop 2 = rest := by
  obtain ⟨x, rest, rfl | rfl, rfl⟩ := isMarked_iff.1 h
  · exact Option.some.inj hRest
  · exact Option.some.inj hRest

/-- Whatever can be divided is read. -/
theorem parseNumber_of_not_splits {s : String} (h : ¬ SplitsMark (bareText s)) :
    parseNumber s = ((readMarked (bareText s).toList).map UInt32.ofNat).mapError .fault := by
  obtain ⟨rest, hRest⟩ := Option.ne_none_iff_exists'.1 (mt dropTwoBytes?_eq_none_iff.1 h)
  rw [parseNumber, hRest, bareText, String.toList_ofList]
  generalize s.toList.filter (· ≠ '_') = cs at hRest ⊢
  have hRead : (if cs.take 2 = ['0', 'x'] ∨ cs.take 2 = ['0', 'X'] then
      readNumber 16 0x100000000 rest else readNumber 10 0x100000000 cs) = readMarked cs := by
    by_cases hMarked : IsMarked cs
    · rw [if_pos hMarked, readMarked, if_pos hMarked, drop_two_of_isMarked hMarked hRest]
    · rw [if_neg hMarked, readMarked, if_neg hMarked]
  dsimp only
  rw [hRead]
  cases readMarked cs <;> rfl

/-- **What is a number.** Without its underscores a text is accepted exactly if it is a decimal
numeral, or a hexadecimal one behind `0x` or `0X`, with a value of 32 bits, and that value is the
answer. Every other text is refused with a fault, unless a character lies across the end of its
first two bytes: then the reader fails before it has looked for a mark. -/
theorem parseNumber_denotes (s : String) :
    (∀ n, parseNumber s = .ok n ↔ Denotes (bareText s).toList n.toNat) ∧
      (parseNumber s = .error .splitCharacter ↔ SplitsMark (bareText s)) ∧
      ((∃ f, parseNumber s = .error (.fault f)) ↔
        ¬ SplitsMark (bareText s) ∧ ∀ n : UInt32, ¬ Denotes (bareText s).toList n.toNat) := by
  by_cases hSplits : SplitsMark (bareText s)
  · have hGrammar {v : Nat} : ¬ Denotes (bareText s).toList v := by
      intro h
      have hWhole := dropTwoBytes?_of_single h.utf8Size_eq
      rw [dropTwoBytes?_eq_none_iff.2 (by rwa [String.ofList_toList])] at hWhole
      cases hWhole
    rw [parseNumber_of_splits hSplits]
    simp [hSplits, hGrammar]
  · have hGrammar (n : UInt32) :
        Denotes (bareText s).toList n.toNat ↔ readMarked (bareText s).toList = .ok n.toNat := by
      rw [readMarked_eq_ok]
      exact (and_iff_left n.toNat_lt).symm
    rw [parseNumber_of_not_splits hSplits]
    simp only [hGrammar]
    cases hRead : readMarked (bareText s).toList with
    | ok v =>
      have hv : v < 0x100000000 := (readMarked_eq_ok.1 hRead).2
      have hFits (n : UInt32) : UInt32.ofNat v = n ↔ v = n.toNat := by
        rw [← UInt32.toNat_inj, UInt32.toNat_ofNat_of_lt' hv]
      refine ⟨fun n => ?_, iff_of_false ?_ hSplits, iff_of_false ?_ fun h => ?_⟩
      · rw [Except.map, Except.mapError, Except.ok.injEq, Except.ok.injEq, hFits]
      · rintro ⟨⟩
      · rintro ⟨f, ⟨⟩⟩
      · exact h.2 (UInt32.ofNat v) (by rw [← (hFits _).1 rfl])
    | error f =>
      refine ⟨fun n => iff_of_false ?_ ?_, iff_of_false ?_ hSplits, iff_of_true ⟨f, rfl⟩ ?_⟩
      · rintro ⟨⟩
      · rintro ⟨⟩
      · rintro ⟨⟩
      · exact ⟨hSplits, fun n => by rintro ⟨⟩⟩

/-- The last of the three bytes belongs to the character before it. -/
theorem parseNumber_splits :
    SplitsMark (bareText "1é") ∧ parseNumber "1é" = .error .splitCharacter := by
  have hSplits : SplitsMark (bareText "1é") := dropTwoBytes?_eq_none_iff.1 (by decide)
  exact ⟨hSplits, (parseNumber_denotes "1é").2.1.2 hSplits⟩

/-- Underscores may stand anywhere, even inside a mark, and a sign behind it. -/
example : parseNumber "0_x+_1F" = .ok 31 := by cbv

end X86
