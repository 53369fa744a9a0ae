import Mathlib
import Occupancy.Json.RoundTrip
import Occupancy.Proofs.Encoding
/-!
# JSON texts are read back

A text is spelled from tokens when it has them in their order, with blanks wherever they may stand; a word or a number
has to be followed by something that ends it. Every such text is read as these tokens (`tokens?_of_spelled`), and what
is written of a value, on one line or on many, is such a text.
-/

namespace Occupancy.Json

/-! ## Texts and their tokens -/

/-- The tokens that go on until something else begins. -/
def Token.IsWord : Token → Prop
  | .null | .bool _ | .number _ => True
  | _ => False

/-- A word ends where this text begins. -/
def Stops (cs : List Char) : Prop := ∀ c ∈ cs.head?, Lexer.endsWord c = true

inductive Spelled : List Char → List Token → Prop where
  | nil : Spelled [] []
  | blank {c : Char} {cs : List Char} {ts : List Token} (hc : isBlank c = true) (h : Spelled cs ts) :
    Spelled (c :: cs) ts
  | token {t : Token} {cs : List Char} {ts : List Token} (ht : t.IsWord → Stops cs) (h : Spelled cs ts) :
    Spelled (t.text ++ cs) (t :: ts)

/-! ## Digits -/

theorem isDigit_digitChar (d : Fin 10) : (digitChar d).isDigit = true := by
  revert d
  decide

theorem digit_digitChar (d : Fin 10) : digit (digitChar d) = d := by
  revert d
  decide

theorem toNat_of_isDigit {c : Char} (h : c.isDigit = true) : 48 ≤ c.toNat ∧ c.toNat ≤ 57 := Char.isDigit_iff_toNat.1 h

theorem val_digit {c : Char} (h : c.isDigit = true) : (digit c).val = c.toNat - 48 := by
  obtain ⟨hle, hlt⟩ := toNat_of_isDigit h
  exact Nat.mod_eq_of_lt (by omega)

theorem digitChar_digit {c : Char} (h : c.isDigit = true) : digitChar (digit c) = c := by
  rw [digitChar, val_digit h, Nat.add_sub_cancel' (toNat_of_isDigit h).1, Char.ofNat_toNat]

theorem decimal_toDigits (n : Nat) : decimal (Nat.toDigits 10 n) = n := by
  have hfold (cs : List Char) (hcs : ∀ c ∈ cs, c.isDigit = true) (acc : Nat) :
      cs.foldl (fun n c => n * 10 + (digit c).val) acc = Nat.ofDigitChars 10 cs acc := by
    induction cs generalizing acc with
    | nil => rfl
    | cons c cs ih =>
      obtain ⟨hc, hcs⟩ := List.forall_mem_cons.1 hcs
      rw [List.foldl_cons, ih hcs, Nat.ofDigitChars_cons, val_digit hc, Nat.mul_comm]
      rfl
  rw [decimal_eq, hfold _ (fun c => Encoding.isDigit_of_mem_toDigits), Nat.ofDigitChars_ten_toDigits]

/-- A number is written without a zero before its digits. -/
theorem toDigits_ne_zero_cons {n : Nat} (h : 0 < n) (rest : List Char) : Nat.toDigits 10 n ≠ '0' :: rest := by
  induction n using Nat.strongRecOn generalizing rest with
  | ind n ih =>
    rw [Nat.toDigits_eq_if (by decide)]
    split
    · intro heq
      have := Nat.digitChar_eq_zero.1 (List.cons.inj heq).1
      omega
    · intro heq
      cases hfront : Nat.toDigits 10 (n / 10) with
      | nil => exact Nat.toDigits_ne_nil hfront
      | cons c front =>
        rw [hfront, List.cons_append] at heq
        rw [(List.cons.inj heq).1] at hfront
        exact ih (n / 10) (by omega) (by omega) front hfront

theorem isWhole_toDigits (n : Nat) : isWhole (Nat.toDigits 10 n) = true := by
  rcases Nat.eq_zero_or_pos n with rfl | hpos
  · rw [Nat.toDigits_zero]
    rfl
  · unfold isWhole
    split
    · next h => exact absurd h Nat.toDigits_ne_nil
    · next h => exact absurd h (toDigits_ne_zero_cons hpos _)
    · rfl

/-- The digits in front are all that there are when something else comes after them. -/
theorem digits_append {ds rest : List Char} (hds : ∀ c ∈ ds, c.isDigit = true)
    (hrest : ∀ c ∈ rest.head?, c.isDigit = false) : digits (ds ++ rest) = (ds, rest) := by
  have hstop : rest.takeWhile Char.isDigit = [] ∧ rest.dropWhile Char.isDigit = rest := by
    cases rest with
    | nil => exact ⟨rfl, rfl⟩
    | cons c rest => simp [hrest c rfl]
  rw [digits, List.takeWhile_append_of_pos hds, List.dropWhile_append_of_pos hds, hstop.1, hstop.2, List.append_nil]

/-! ## Numbers -/

/-- What is written of an exponent. -/
def exponentText : Option Int → List Char
  | none => []
  | some (.ofNat e) => 'e' :: Nat.toDigits 10 e
  | some (.negSucc e) => 'e' :: '-' :: Nat.toDigits 10 (e + 1)

/-- What is written of the digits after the point. -/
def fractionText (ds : List (Fin 10)) : List Char := if ds.isEmpty then [] else '.' :: ds.map digitChar

theorem writeNumber_eq (n : JsonNumber) :
    writeNumber n = (if n.negative then ['-'] else []) ++
      (Nat.toDigits 10 n.whole ++ (fractionText n.fraction ++ exponentText n.exponent)) := by
  rcases n with ⟨negative, whole, fraction, _ | e | e⟩ <;>
    exact (List.append_assoc _ _ _).trans (List.append_assoc _ _ _)

theorem digits_toDigits (n : Nat) : digits (Nat.toDigits 10 n) = (Nat.toDigits 10 n, []) := by
  have h : digits (Nat.toDigits 10 n ++ []) = (Nat.toDigits 10 n, []) :=
    digits_append (fun c => Encoding.isDigit_of_mem_toDigits) nofun
  rwa [List.append_nil] at h

theorem ne_of_isDigit {c d : Char} (hc : c.isDigit = true) (hd : d.isDigit = false) : c ≠ d := by
  rintro rfl
  rw [hc] at hd
  cases hd

theorem signed?_toDigits (n : Nat) : signed? (Nat.toDigits 10 n) = some (n : Int) := by
  cases hds : Nat.toDigits 10 n with
  | nil => exact absurd hds Nat.toDigits_ne_nil
  | cons c cs =>
    have hc : c.isDigit = true := Encoding.isDigit_of_mem_toDigits (n := n) (hds ▸ List.mem_cons_self)
    unfold signed?
    split
    next negative cs' hsign =>
      split at hsign
      · next heq => exact absurd (List.cons.inj heq).1 (ne_of_isDigit hc rfl)
      · next heq => exact absurd (List.cons.inj heq).1 (ne_of_isDigit hc rfl)
      · obtain ⟨rfl, rfl⟩ := Prod.mk.inj hsign
        rw [← hds]
        simp [digits_toDigits, decimal_toDigits, Nat.toDigits_ne_nil]

theorem signed?_minus_toDigits (n : Nat) : signed? ('-' :: Nat.toDigits 10 n) = some (-(n : Int)) := by
  simp [signed?, digits_toDigits, decimal_toDigits, Nat.toDigits_ne_nil]

theorem exponent?_exponentText (e : Option Int) : exponent? (exponentText e) = some e := by
  rcases e with _ | e | e
  · rfl
  · rw [exponentText, exponent?, signed?_toDigits]
    rfl
  · rw [exponentText, exponent?, signed?_minus_toDigits]
    rfl

/-- No digit comes after the digits that stand before an exponent. -/
theorem isDigit_head_exponentText (e : Option Int) : ∀ c ∈ (exponentText e).head?, c.isDigit = false := by
  rcases e with _ | e | e <;> simp [exponentText]

theorem fraction?_fractionText (ds : List (Fin 10)) (e : Option Int) :
    fraction? (fractionText ds ++ exponentText e) = some (ds, exponentText e) := by
  unfold fractionText
  split
  · next hds =>
    obtain rfl := List.isEmpty_iff.1 hds
    rcases e with _ | e | e <;> rfl
  · next hds =>
    have hdigits : ∀ c ∈ ds.map digitChar, c.isDigit = true := by
      intro c hc
      obtain ⟨d, -, rfl⟩ := List.mem_map.1 hc
      exact isDigit_digitChar d
    rw [List.cons_append, fraction?, digits_append hdigits (isDigit_head_exponentText e)]
    simp only [List.isEmpty_map, hds, List.map_map]
    simp [Function.comp_def, digit_digitChar]

/-- What comes after the digits before the point begins with no digit. -/
theorem isDigit_head_fractionText (ds : List (Fin 10)) (e : Option Int) :
    ∀ c ∈ (fractionText ds ++ exponentText e).head?, c.isDigit = false := by
  unfold fractionText
  split
  · exact isDigit_head_exponentText e
  · simp

theorem number?_writeNumber (n : JsonNumber) : number? (writeNumber n) = some n := by
  rw [writeNumber_eq]
  obtain ⟨negative, whole, fraction, exponent⟩ := n
  have hdigits : digits (Nat.toDigits 10 whole ++ (fractionText fraction ++ exponentText exponent)) =
      (Nat.toDigits 10 whole, fractionText fraction ++ exponentText exponent) :=
    digits_append (fun c => Encoding.isDigit_of_mem_toDigits) (isDigit_head_fractionText fraction exponent)
  cases negative with
  | true =>
    simp [number?, hdigits, isWhole_toDigits, fraction?_fractionText, exponent?_exponentText, decimal_toDigits]
  | false =>
    -- without a sign the first digit comes first, and no digit is taken for a sign
    cases hds : Nat.toDigits 10 whole with
    | nil => exact absurd hds Nat.toDigits_ne_nil
    | cons c cs =>
      have hc : c.isDigit = true := Encoding.isDigit_of_mem_toDigits (n := whole) (hds ▸ List.mem_cons_self)
      unfold number?
      split
      next sign rest hsign =>
        split at hsign
        · next heq => exact absurd (List.cons.inj heq).1 (ne_of_isDigit hc rfl)
        · obtain ⟨rfl, rfl⟩ := Prod.mk.inj hsign
          dsimp only [Bool.false_eq_true, if_false, List.nil_append]
          rw [← hds]
          simp [hdigits, isWhole_toDigits, fraction?_fractionText, exponent?_exponentText, decimal_toDigits]

/-! ## Words -/

theorem endsWord_of_isDigit {c : Char} (h : c.isDigit = true) : Lexer.endsWord c = false := by
  rw [← digitChar_digit h]
  generalize digit c = d
  revert d
  decide

theorem endsWord_writeNumber (n : JsonNumber) : ∀ c ∈ writeNumber n, Lexer.endsWord c = false := by
  have hdigits (n : Nat) : ∀ c ∈ Nat.toDigits 10 n, Lexer.endsWord c = false :=
    fun c hc => endsWord_of_isDigit (Encoding.isDigit_of_mem_toDigits hc)
  intro c hc
  rw [writeNumber_eq] at hc
  simp only [List.mem_append] at hc
  rcases hc with hc | hc | hc | hc
  · split at hc
    · rw [List.mem_singleton.1 hc]
      rfl
    · cases hc
  · exact hdigits _ c hc
  · unfold fractionText at hc
    split at hc
    · cases hc
    · rcases List.mem_cons.1 hc with rfl | hc
      · rfl
      · obtain ⟨d, -, rfl⟩ := List.mem_map.1 hc
        exact endsWord_of_isDigit (isDigit_digitChar d)
  · rcases hexponent : n.exponent with _ | e | e
    · rw [hexponent] at hc
      cases hc
    · rw [hexponent] at hc
      rcases List.mem_cons.1 hc with rfl | hc
      · rfl
      · exact hdigits _ c hc
    · rw [hexponent] at hc
      rcases List.mem_cons.1 hc with rfl | hc
      · rfl
      · rcases List.mem_cons.1 hc with rfl | hc
        · rfl
        · exact hdigits _ c hc

theorem endsWord_text {t : Token} (ht : t.IsWord) : ∀ c ∈ t.text, Lexer.endsWord c = false := by
  match t with
  | .null =>
    show ∀ c ∈ ['n', 'u', 'l', 'l'], Lexer.endsWord c = false
    simp only [List.forall_mem_cons]
    exact ⟨rfl, rfl, rfl, rfl, nofun⟩
  | .bool true =>
    show ∀ c ∈ ['t', 'r', 'u', 'e'], Lexer.endsWord c = false
    simp only [List.forall_mem_cons]
    exact ⟨rfl, rfl, rfl, rfl, nofun⟩
  | .bool false =>
    show ∀ c ∈ ['f', 'a', 'l', 's', 'e'], Lexer.endsWord c = false
    simp only [List.forall_mem_cons]
    exact ⟨rfl, rfl, rfl, rfl, rfl, nofun⟩
  | .number n => exact endsWord_writeNumber n

/-- What is written of a number is no other word. -/
theorem word?_text {t : Token} (ht : t.IsWord) : word? t.text = some t := by
  match t with
  | .null => exact if_pos rfl
  | .bool true => exact (if_neg (by decide)).trans (if_pos rfl)
  | .bool false => exact (if_neg (by decide)).trans ((if_neg (by decide)).trans (if_pos rfl))
  | .number n =>
    have hnumber := number?_writeNumber n
    have hne {w : String} (hw : number? w.toList = none) : writeNumber n ≠ w.toList := by
      intro heq
      rw [heq, hw] at hnumber
      cases hnumber
    rw [Token.text, word?, if_neg (hne (by decide)), if_neg (hne (by decide)), if_neg (hne (by decide)), hnumber]
    rfl

/-! ## Running the machine -/

/-- The tokens that the machine makes of a text. -/
def run (l : Lexer) (cs : List Char) : Option (List Token) := (cs.foldlM Lexer.step l).bind Lexer.finish

theorem run_cons (l : Lexer) (c : Char) (cs : List Char) : run l (c :: cs) = (l.step c).bind (run · cs) := by
  rw [run, List.foldlM_cons]
  cases l.step c <;> rfl

theorem run_append {l l' : Lexer} {cs : List Char} (h : cs.foldlM Lexer.step l = some l') (rest : List Char) :
    run l (cs ++ rest) = run l' rest := by
  rw [run, List.foldlM_append, h]
  rfl

variable (done : List Token)

/-- In a word the machine takes what does not end it, and gives the word when it ends. -/
theorem run_word {chars w cs : List Char} {t : Token} (hw : ∀ c ∈ w, Lexer.endsWord c = false)
    (ht : word? (chars.reverse ++ w) = some t) (hstop : Stops cs) :
    run { tokens := done, mode := .word chars } (w ++ cs) = run { tokens := t :: done } cs := by
  -- `chars` is what the machine has of the word, the latest first, and `w` what is still to come of it
  induction w generalizing chars with
  | nil =>
    rw [List.append_nil] at ht
    cases cs with
    | nil =>
      rw [List.nil_append, run, List.foldlM_nil]
      simp [Lexer.finish, ht, run]
    | cons c cs =>
      rw [List.nil_append, run_cons, run_cons]
      simp [Lexer.step, hstop c rfl, ht]
  | cons c w ih =>
    obtain ⟨hc, hw⟩ := List.forall_mem_cons.1 hw
    rw [List.cons_append, run_cons]
    simp only [Lexer.step, hc, Bool.false_eq_true, if_false, Option.bind_some]
    exact ih hw (by rwa [List.reverse_cons, List.append_assoc])

/-- Between tokens the machine begins a word with anything that ends none. -/
theorem outside_of_endsWord {c : Char} (hc : Lexer.endsWord c = false) :
    Lexer.outside done c = { tokens := done, mode := .word [c] } := by
  simp only [Lexer.endsWord, Bool.or_eq_false_iff, decide_eq_false_iff_not, Option.isSome_eq_false_iff,
    Option.isNone_iff_eq_none] at hc
  obtain ⟨⟨hblank, hquote⟩, hmark⟩ := hc
  simp only [Lexer.outside, hblank, hquote, hmark, Bool.false_eq_true, if_false]

theorem run_of_isWord {t : Token} (ht : t.IsWord) {cs : List Char} (hstop : Stops cs) :
    run { tokens := done } (t.text ++ cs) = run { tokens := t :: done } cs := by
  have hends := endsWord_text ht
  have hword := word?_text ht
  cases htext : t.text with
  | nil =>
    rw [htext] at hword
    cases hword
  | cons c w =>
    rw [htext] at hends hword
    obtain ⟨hc, hw⟩ := List.forall_mem_cons.1 hends
    rw [List.cons_append, run_cons]
    simp only [Lexer.step, outside_of_endsWord done hc, Option.bind_some]
    exact run_word done hw hword hstop

/-! ## Strings -/

/-- A character is written with a letter after a backslash, with its code, or as it is. -/
theorem escape_eq (c : Char) :
    (∃ d, escape c = ['\\', d] ∧ d ≠ 'u' ∧ escaped? d = some c) ∨
      (c.toNat < 0x20 ∧
        escape c = ['\\', 'u', '0', '0', Encoding.hexDigit (c.toNat / 16), Encoding.hexDigit (c.toNat % 16)]) ∨
      (c ≠ '"' ∧ c ≠ '\\' ∧ ¬ c.toNat < 0x20) ∧ escape c = [c] := by
  unfold escape
  split
  · next h => exact .inl ⟨'"', rfl, by decide, by rw [h]; rfl⟩
  · next hquote =>
    split
    · next h => exact .inl ⟨'\\', rfl, by decide, by rw [h]; rfl⟩
    · next hslash =>
      repeat' split
      · next h => exact .inl ⟨'b', rfl, by decide, by rw [h]; rfl⟩
      · next h => exact .inl ⟨'f', rfl, by decide, by rw [h]; rfl⟩
      · next h => exact .inl ⟨'n', rfl, by decide, by rw [h]; rfl⟩
      · next h => exact .inl ⟨'r', rfl, by decide, by rw [h]; rfl⟩
      · next h => exact .inl ⟨'t', rfl, by decide, by rw [h]; rfl⟩
      · next h => exact .inr (.inl ⟨h, rfl⟩)
      · next h => exact .inr (.inr ⟨⟨hquote, hslash, h⟩, rfl⟩)

/-- In a string the machine takes what is written of a character as that character. -/
theorem foldlM_escape (pieces : List Piece) (c : Char) :
    (escape c).foldlM Lexer.step { tokens := done, mode := .quoted pieces } =
      some { tokens := done, mode := .quoted (.char c :: pieces) } := by
  rcases escape_eq c with ⟨d, htext, hu, hd⟩ | ⟨hlt, htext⟩ | ⟨⟨hquote, hslash, hge⟩, htext⟩
  · rw [htext]
    simp [Lexer.step, hu, hd]
  · have hhigh : Encoding.hexValue? (Encoding.hexDigit (c.toNat / 16)) = some (c.toNat / 16) :=
      Encoding.hexValue?_hexDigit (by omega)
    have hlow : Encoding.hexValue? (Encoding.hexDigit (c.toNat % 16)) = some (c.toNat % 16) :=
      Encoding.hexValue?_hexDigit (by omega)
    have hzero : Encoding.hexValue? '0' = some 0 := rfl
    have hcode : Piece.ofCode (c.toNat / 16 * 16 + c.toNat % 16) = .char c := by
      have hno : (isHighHalf c.toNat || isLowHalf c.toNat) = false := by
        simp [isHighHalf, isLowHalf]
        omega
      rw [Nat.div_add_mod', Piece.ofCode, hno, Char.ofNat_toNat]
      rfl
    rw [htext]
    simp [Lexer.step, hzero, hhigh, hlow, hcode]
  · rw [htext]
    simp [Lexer.step, hquote, hslash, hge]

theorem foldlM_flatMap_escape (pieces : List Piece) (cs : List Char) :
    (cs.flatMap escape).foldlM Lexer.step { tokens := done, mode := .quoted pieces } =
      some { tokens := done, mode := .quoted ((cs.map Piece.char).reverse ++ pieces) } := by
  induction cs generalizing pieces with
  | nil => rfl
  | cons c cs ih =>
    rw [List.flatMap_cons, List.foldlM_append, foldlM_escape]
    simp [ih]

theorem joinPieces_map_char (cs : List Char) : joinPieces (cs.map Piece.char) = some cs := by
  induction cs with
  | nil => rfl
  | cons c cs ih =>
    rw [List.map_cons, joinPieces, ih]
    rfl

theorem run_string (s : JsonString) (cs : List Char) :
    run { tokens := done } (quote s ++ cs) = run { tokens := .string s :: done } cs := by
  refine run_append ?_ cs
  have hopen : Lexer.step { tokens := done } '"' = some { tokens := done, mode := .quoted [] } := rfl
  cases s with
  | none => rfl
  | some s =>
    unfold quote
    rw [List.cons_append, List.foldlM_cons, hopen]
    simp [List.foldlM_append, foldlM_flatMap_escape, Lexer.step, joinPieces_map_char]

/-! ## Every text of the tokens is read -/

theorem run_blank {c : Char} (hc : isBlank c = true) (cs : List Char) :
    run { tokens := done } (c :: cs) = run { tokens := done } cs := by
  rw [run_cons]
  simp [Lexer.step, Lexer.outside, hc]

theorem run_token {t : Token} {cs : List Char} (ht : t.IsWord → Stops cs) :
    run { tokens := done } (t.text ++ cs) = run { tokens := t :: done } cs := by
  cases t with
  | null => exact run_of_isWord (t := .null) done trivial (ht trivial)
  | bool b => exact run_of_isWord (t := .bool b) done trivial (ht trivial)
  | number n => exact run_of_isWord (t := .number n) done trivial (ht trivial)
  | string s => exact run_string done s cs
  | _ => exact run_cons _ _ _

theorem run_of_spelled {cs : List Char} {ts : List Token} (h : Spelled cs ts) (done : List Token) :
    run { tokens := done } cs = some (done.reverse ++ ts) := by
  induction h generalizing done with
  | nil => simp [run, Lexer.finish]
  | blank hc _ ih => rw [run_blank done hc, ih]
  | token ht _ ih =>
    rw [run_token done ht, ih, List.reverse_cons, List.append_assoc]
    rfl

theorem tokens?_of_spelled {cs : List Char} {ts : List Token} (h : Spelled cs ts) : tokens? cs = some ts :=
  run_of_spelled h []

theorem read?_of_spelled {text : String} {v : Json} (h : Spelled text.toList v.tokens) : read? text = some v := by
  rw [read?, tokens?_of_spelled h, Option.bind_some, ofTokens?_tokens]

/-! ## What is written -/

/-- The text spells the tokens wherever it stands, provided that a word can end after it. -/
def Spells (cs : List Char) (ts : List Token) : Prop :=
  ∀ ⦃rest : List Char⦄ ⦃more : List Token⦄, Spelled rest more → Stops rest → Spelled (cs ++ rest) (ts ++ more)

theorem Spells.spelled {cs : List Char} {ts : List Token} (h : Spells cs ts) : Spelled cs ts := by
  have h := h .nil nofun
  rwa [List.append_nil, List.append_nil] at h

theorem spells_token (t : Token) : Spells t.text [t] := fun _ _ h hstop => .token (fun _ => hstop) h

theorem spelled_blanks {gap cs : List Char} {ts : List Token} (hgap : ∀ c ∈ gap, isBlank c = true)
    (h : Spelled cs ts) : Spelled (gap ++ cs) ts := by
  induction gap with
  | nil => exact h
  | cons c gap ih =>
    obtain ⟨hc, hgap⟩ := List.forall_mem_cons.1 hgap
    exact .blank hc (ih hgap)

theorem stops_blanks {gap cs : List Char} (hgap : ∀ c ∈ gap, isBlank c = true) (h : Stops cs) : Stops (gap ++ cs) := by
  cases gap with
  | nil => exact h
  | cons c gap =>
    intro d hd
    obtain rfl := Option.some.inj hd
    simp [Lexer.endsWord, hgap c List.mem_cons_self]

def Token.IsMark : Token → Prop
  | .openBracket | .closeBracket | .openBrace | .closeBrace | .comma | .colon => True
  | _ => False

/-- A mark ends what comes before it. -/
theorem stops_mark {t : Token} (ht : t.IsMark) (cs : List Char) : Stops (t.text ++ cs) := by
  intro c hc
  cases t with
  | null | bool | number | string => exact ht.elim
  | _ =>
    obtain rfl := Option.some.inj hc
    rfl

theorem spelled_mark {t : Token} (ht : t.IsMark) {cs : List Char} {ts : List Token} (h : Spelled cs ts) :
    Spelled (t.text ++ cs) (t :: ts) :=
  .token (fun hword => by cases t <;> first | exact ht.elim | exact hword.elim) h

theorem spells_nil : Spells [] [] := fun _ _ h _ => h

/-- Texts with a mark between them, after which there may be blanks. -/
theorem Spells.separated {cs cs' : List Char} {ts ts' : List Token} (h : Spells cs ts) (h' : Spells cs' ts')
    (mark : Token) (hmark : mark.IsMark) (gap : List Char) (hgap : ∀ c ∈ gap, isBlank c = true) :
    Spells (cs ++ (mark.text ++ (gap ++ cs'))) (ts ++ mark :: ts') := by
  intro rest more hrest hstop
  have hnext := h (spelled_mark hmark (spelled_blanks hgap (h' hrest hstop))) (stops_mark hmark _)
  simpa only [List.append_assoc, List.cons_append] using hnext

/-- A text between two marks, with blanks on both sides of it. -/
theorem Spells.enclosed {cs : List Char} {ts : List Token} (h : Spells cs ts) (opening closing : Token)
    (hopening : opening.IsMark) (hclosing : closing.IsMark) (gap gap' : List Char) (hgap : ∀ c ∈ gap, isBlank c = true)
    (hgap' : ∀ c ∈ gap', isBlank c = true) :
    Spells (opening.text ++ (gap ++ (cs ++ (gap' ++ closing.text)))) (opening :: (ts ++ [closing])) := by
  intro rest more hrest hstop
  have hclose := h (spelled_blanks hgap' (spelled_mark hclosing hrest)) (stops_blanks hgap' (stops_mark hclosing rest))
  have hopen := spelled_mark hopening (spelled_blanks hgap hclose)
  simpa only [List.append_assoc, List.cons_append, List.nil_append] using hopen

mutual

theorem spells_tokens (v : Json) : Spells (v.tokens.flatMap Token.text) v.tokens := by
  match v with
  | .null => simpa [tokens] using spells_token .null
  | .bool b => simpa [tokens] using spells_token (.bool b)
  | .number n => simpa [tokens] using spells_token (.number n)
  | .string s => simpa [tokens] using spells_token (.string s)
  | .array items =>
    have h := (spells_itemTokens items).enclosed .openBracket .closeBracket trivial trivial [] [] nofun nofun
    simpa [tokens] using h
  | .object members =>
    have h := (spells_memberTokens members).enclosed .openBrace .closeBrace trivial trivial [] [] nofun nofun
    simpa [tokens] using h

theorem spells_itemTokens (items : List Json) : Spells ((itemTokens items).flatMap Token.text) (itemTokens items) := by
  match items with
  | [] => exact spells_nil
  | [v] => exact spells_tokens v
  | v :: w :: rest =>
    have h := (spells_tokens v).separated (spells_itemTokens (w :: rest)) .comma trivial [] nofun
    simpa [itemTokens] using h

theorem spells_memberTokens (members : List (JsonString × Json)) :
    Spells ((memberTokens members).flatMap Token.text) (memberTokens members) := by
  match members with
  | [] => exact spells_nil
  | [(key, v)] =>
    have h := (spells_token (.string key)).separated (spells_tokens v) .colon trivial [] nofun
    simpa [memberTokens] using h
  | (key, v) :: m :: ms =>
    have h := (spells_token (.string key)).separated (spells_tokens v) .colon trivial [] nofun
    have h' := h.separated (spells_memberTokens (m :: ms)) .comma trivial [] nofun
    simpa [memberTokens] using h'

end

/-- What is written on one line is read back. -/
theorem read?_compact (v : Json) : read? v.compact = some v := by
  refine read?_of_spelled ?_
  rw [compact, String.toList_ofList]
  exact (spells_tokens v).spelled

/-! ## On many lines -/

theorem isBlank_newLine (depth : Nat) : ∀ c ∈ (newLine depth).toList, isBlank c = true := by
  unfold newLine
  rw [String.pushn_eq_repeat_push]
  generalize 2 * depth = n
  induction n with
  | zero =>
    intro c hc
    obtain rfl := List.mem_singleton.1 hc
    rfl
  | succ n ih =>
    intro c hc
    rw [Nat.repeat, String.toList_push, List.mem_append] at hc
    rcases hc with hc | hc
    · exact ih c hc
    · rw [List.mem_singleton.1 hc]
      rfl

/-- The tokens of parts with commas between them. -/
def commaTokens : List (List Token) → List Token
  | [] => []
  | [ts] => ts
  | ts :: rest => ts ++ .comma :: commaTokens rest

theorem itemTokens_eq (items : List Json) : itemTokens items = commaTokens (items.map tokens) := by
  induction items with
  | nil => rfl
  | cons v items ih =>
    cases items with
    | nil => rfl
    | cons w items => rw [itemTokens, ih] <;> simp [commaTokens]

theorem memberTokens_eq (members : List (JsonString × Json)) :
    memberTokens members = commaTokens (members.map fun m => .string m.1 :: .colon :: m.2.tokens) := by
  induction members with
  | nil => rfl
  | cons m members ih =>
    obtain ⟨key, v⟩ := m
    cases members with
    | nil => rfl
    | cons m' members => rw [memberTokens, ih] <;> simp [commaTokens]

/-- Parts of which each spells its tokens, with commas between them. -/
theorem spells_intercalate {parts : List String} {tss : List (List Token)} {gap : String}
    (h : List.Forall₂ (fun part ts => Spells part.toList ts) parts tss) (hgap : ∀ c ∈ gap.toList, isBlank c = true) :
    Spells (String.intercalate ("," ++ gap) parts).toList (commaTokens tss) := by
  induction h with
  | nil => exact spells_nil
  | @cons part ts parts tss hpart hparts ih =>
    cases hparts with
    | nil =>
      rw [String.intercalate_singleton]
      exact hpart
    | @cons part' ts' parts' tss' _ _ =>
      have h := hpart.separated ih .comma trivial gap.toList hgap
      rw [String.intercalate_cons_cons]
      simpa [Token.text, commaTokens] using h

theorem spells_enclose {parts : List String} {tss : List (List Token)}
    (h : List.Forall₂ (fun part ts => Spells part.toList ts) parts tss) (opening closing : Token)
    (hopening : opening.IsMark) (hclosing : closing.IsMark) {o c : String} (ho : o.toList = opening.text)
    (hc : c.toList = closing.text) (depth : Nat) :
    Spells (enclose o c depth parts).toList (opening :: (commaTokens tss ++ [closing])) := by
  unfold enclose
  split
  · -- a container that holds nothing stays on its line
    next hparts =>
    obtain rfl := List.isEmpty_iff.1 hparts
    cases h
    have h := spells_nil.enclosed opening closing hopening hclosing [] [] nofun nofun
    simpa [ho, hc, commaTokens] using h
  · have h := (spells_intercalate h (isBlank_newLine (depth + 1))).enclosed opening closing hopening hclosing
      (newLine (depth + 1)).toList (newLine depth).toList (isBlank_newLine (depth + 1)) (isBlank_newLine depth)
    simpa only [String.toList_append, ho, hc, List.append_assoc] using h

mutual

theorem spells_prettyAt (depth : Nat) (v : Json) : Spells (prettyAt depth v).toList v.tokens := by
  match v with
  | .null => simpa [tokens, prettyAt] using spells_token .null
  | .bool b => simpa [tokens, prettyAt] using spells_token (.bool b)
  | .number n => simpa [tokens, prettyAt, Token.text] using spells_token (.number n)
  | .string s => simpa [tokens, prettyAt, Token.text] using spells_token (.string s)
  | .array items =>
    have h := spells_enclose (spells_prettyItems (depth + 1) items) .openBracket .closeBracket trivial trivial
      (o := "[") (c := "]") rfl rfl depth
    rwa [← itemTokens_eq] at h
  | .object members =>
    have h := spells_enclose (spells_prettyMembers (depth + 1) members) .openBrace .closeBrace trivial trivial
      (o := "\x7b") (c := "\x7d") rfl rfl depth
    rwa [← memberTokens_eq] at h

theorem spells_prettyItems (depth : Nat) (items : List Json) :
    List.Forall₂ (fun part ts => Spells part.toList ts) (prettyItems depth items) (items.map tokens) := by
  match items with
  | [] => exact .nil
  | v :: rest => exact .cons (spells_prettyAt depth v) (spells_prettyItems depth rest)

theorem spells_prettyMembers (depth : Nat) (members : List (JsonString × Json)) :
    List.Forall₂ (fun part ts => Spells part.toList ts) (prettyMembers depth members)
      (members.map fun m => .string m.1 :: .colon :: m.2.tokens) := by
  match members with
  | [] => exact .nil
  | (key, v) :: rest =>
    refine .cons ?_ (spells_prettyMembers depth rest)
    have h := (spells_token (.string key)).separated (spells_prettyAt depth v) .colon trivial [' ']
      (by simp [isBlank])
    simpa [Token.text] using h

end

/-- What is written on many lines is read back. -/
theorem read?_pretty (v : Json) : read? v.pretty = some v := read?_of_spelled (spells_prettyAt 0 v).spelled

end Occupancy.Json
