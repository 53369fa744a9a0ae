import Mathlib
import Occupancy.Encoding
/-!
# Bytes and numbers are read back

Each way of writing a row of bytes has a reader that gives the bytes back: `ofBinary?_binary`, `ofHex?_hex` and
`ofBase64?_base64`. In base 64 the last group may have two symbols or three, which are read as one byte or two;
numbers with commas between them are read back too, even if there are none (`naturals?_decimals`).
-/

namespace Occupancy

/-- What was written one by one is read one by one. -/
theorem mapM_map_eq_some {α β : Type} {write : α → β} {read? : β → Option α} {l : List α}
    (h : ∀ x ∈ l, read? (write x) = some x) : (l.map write).mapM read? = some l := by
  induction l with
  | nil => rfl
  | cons x l ih =>
    obtain ⟨hx, hl⟩ := List.forall_mem_cons.1 h
    rw [List.map_cons, List.mapM_cons, hx, ih hl]
    rfl

/-! ## Bytes from bits -/

namespace Byte

/-- The byte with these bits, bit 0 first. -/
def ofBits (l : List Bool) : UInt8 := UInt8.ofNat (l.foldr (fun on n => 2 * n + on.toNat) 0)

/-- The bytes that bits in a row make. -/
def ofRow : List Bool → List UInt8
  | b₀ :: b₁ :: b₂ :: b₃ :: b₄ :: b₅ :: b₆ :: b₇ :: rest => ofBits [b₀, b₁, b₂, b₃, b₄, b₅, b₆, b₇] :: ofRow rest
  | _ => []

theorem ofBits_bits (b : UInt8) : ofBits (bits b) = b := by
  have h : ∀ n : Fin 256, ofBits (bits (UInt8.ofNat n.val)) = UInt8.ofNat n.val := by decide +kernel
  have := h ⟨b.toNat, b.toNat_lt⟩
  rwa [UInt8.ofNat_toNat] at this

theorem ofRow_row (bs : List UInt8) : ofRow (row bs) = bs := by
  induction bs with
  | nil => rfl
  | cons b bs ih =>
    have hcons : ofRow (bits b ++ row bs) = ofBits (bits b) :: ofRow (row bs) := rfl
    rw [row, List.flatMap_cons, ← row, hcons, ofBits_bits, ih]

end Byte

namespace Encoding

/-! ## Binary -/

def bitOf? (c : Char) : Option Bool :=
  if c = '1' then some true else if c = '0' then some false else none

def ofBinary? (cs : List Char) : Option (List UInt8) := (cs.mapM bitOf?).map Byte.ofRow

theorem bitOf?_binaryDigit (on : Bool) : bitOf? (binaryDigit on) = some on := by cases on <;> rfl

theorem toList_binary (bs : List UInt8) : (binary bs).toList = (Byte.row bs).map binaryDigit := String.toList_ofList

theorem ofBinary?_binary (bs : List UInt8) : ofBinary? (binary bs).toList = some bs := by
  have hbits : ((Byte.row bs).map binaryDigit).mapM bitOf? = some (Byte.row bs) :=
    mapM_map_eq_some fun on _ => bitOf?_binaryDigit on
  rw [ofBinary?, toList_binary, hbits, Option.map_some, Byte.ofRow_row]

theorem not_mem_binary {c : Char} (hc : bitOf? c = none) (bs : List UInt8) : c ∉ (binary bs).toList := by
  rw [toList_binary]
  intro hmem
  obtain ⟨on, -, rfl⟩ := List.mem_map.1 hmem
  rw [bitOf?_binaryDigit] at hc
  cases hc

/-! ## Hexadecimal -/

def ofHex? : List Char → Option (List UInt8)
  | high :: low :: rest => do
    let high ← hexValue? high
    let low ← hexValue? low
    let bs ← ofHex? rest
    return UInt8.ofNat (16 * high + low) :: bs
  | [] => some []
  | [_] => none

theorem hexValue?_hexDigit {n : Nat} (h : n < 16) : hexValue? (hexDigit n) = some n := by
  revert n
  decide

theorem hexDigits_lt (b : UInt8) : b.toNat / 16 < 16 ∧ b.toNat % 16 < 16 := by
  have hlt := b.toNat_lt
  omega

theorem not_mem_hex {c : Char} (hc : hexValue? c = none) (bs : List UInt8) : c ∉ (hex bs).toList := by
  rw [hex, String.toList_ofList]
  intro hmem
  obtain ⟨b, -, hb⟩ := List.mem_flatMap.1 hmem
  obtain ⟨hhigh, hlow⟩ := hexDigits_lt b
  rw [hexDigits, List.mem_pair] at hb
  rcases hb with rfl | rfl
  · rw [hexValue?_hexDigit hhigh] at hc
    cases hc
  · rw [hexValue?_hexDigit hlow] at hc
    cases hc

theorem ofHex?_hex (bs : List UInt8) : ofHex? (hex bs).toList = some bs := by
  rw [hex, String.toList_ofList]
  induction bs with
  | nil => rfl
  | cons b bs ih =>
    obtain ⟨hhigh, hlow⟩ := hexDigits_lt b
    have hbyte : UInt8.ofNat (16 * (b.toNat / 16) + b.toNat % 16) = b := by rw [Nat.div_add_mod, UInt8.ofNat_toNat]
    simp only [List.flatMap_cons, hexDigits, List.cons_append, List.nil_append, ofHex?, hexValue?_hexDigit hhigh,
      hexValue?_hexDigit hlow, ih, Option.bind_eq_bind, Option.bind_some, hbyte, Option.pure_def]

/-! ## Base 64 -/

/-- The number that a symbol stands for. -/
def symbolValue? (c : Char) : Option Nat :=
  if 'A' ≤ c && c ≤ 'Z' then some (c.toNat - 65)
  else if 'a' ≤ c && c ≤ 'z' then some (c.toNat - 71)
  else if '0' ≤ c && c ≤ '9' then some (c.toNat + 4)
  else if c = '+' then some 62
  else if c = '/' then some 63
  else none

/-- The numbers of six bits that up to three bytes make, the highest bits first; the last is filled up with zeros. -/
def sextets : List UInt8 → List Nat
  | [] => []
  | [a] => [a.toNat / 4, a.toNat % 4 * 16]
  | [a, b] => [a.toNat / 4, a.toNat % 4 * 16 + b.toNat / 16, b.toNat % 16 * 4]
  | a :: b :: c :: _ =>
    [a.toNat / 4, a.toNat % 4 * 16 + b.toNat / 16, b.toNat % 16 * 4 + c.toNat / 64, c.toNat % 64]

/-- The bytes that two, three or four numbers of six bits hold. -/
def ofSextets? : List Nat → Option (List UInt8)
  | [w, x] => some [UInt8.ofNat (w * 4 + x / 16)]
  | [w, x, y] => some [UInt8.ofNat (w * 4 + x / 16), UInt8.ofNat (x % 16 * 16 + y / 4)]
  | [w, x, y, z] =>
    some [UInt8.ofNat (w * 4 + x / 16), UInt8.ofNat (x % 16 * 16 + y / 4), UInt8.ofNat (y % 4 * 64 + z)]
  | _ => none

/-- Four symbols at a time are read as three bytes, and what is left over as a last group. -/
def ofBase64? : List Char → Option (List UInt8)
  | [] => some []
  | w :: x :: y :: z :: rest => do
    let front ← ([w, x, y, z].mapM symbolValue?).bind ofSextets?
    let back ← ofBase64? rest
    return front ++ back
  | last => (last.mapM symbolValue?).bind ofSextets?

theorem symbolValue?_symbol {n : Nat} (h : n < 64) : symbolValue? (symbol n) = some n := by
  revert n
  decide

theorem symbols_eq (group : List UInt8) : symbols group = (sextets group).map symbol := by
  rcases group with _ | ⟨a, _ | ⟨b, _ | ⟨c, rest⟩⟩⟩ <;> rfl

theorem sextets_lt (group : List UInt8) : ∀ n ∈ sextets group, n < 64 := by
  rcases group with _ | ⟨a, _ | ⟨b, _ | ⟨c, rest⟩⟩⟩
  · nofun
  · have ha := a.toNat_lt
    simp only [sextets, List.forall_mem_cons]
    exact ⟨by omega, by omega, nofun⟩
  · have ha := a.toNat_lt
    have hb := b.toNat_lt
    simp only [sextets, List.forall_mem_cons]
    exact ⟨by omega, by omega, by omega, nofun⟩
  · have ha := a.toNat_lt
    have hb := b.toNat_lt
    have hc := c.toNat_lt
    simp only [sextets, List.forall_mem_cons]
    exact ⟨by omega, by omega, by omega, by omega, nofun⟩

theorem not_mem_base64 {c : Char} (hc : symbolValue? c = none) (bs : List UInt8) : c ∉ (base64 bs).toList := by
  rw [base64, String.toList_ofList]
  intro hmem
  obtain ⟨group, -, hgroup⟩ := List.mem_flatMap.1 hmem
  rw [symbols_eq] at hgroup
  obtain ⟨n, hn, rfl⟩ := List.mem_map.1 hgroup
  rw [symbolValue?_symbol (sextets_lt group n hn)] at hc
  cases hc

theorem ofSextets?_sextets {group : List UInt8} (hne : group ≠ []) (hle : group.length ≤ 3) :
    ofSextets? (sextets group) = some group := by
  have hbyte {n : Nat} {b : UInt8} (h : n = b.toNat) : UInt8.ofNat n = b := by rw [h, UInt8.ofNat_toNat]
  match group with
  | [a] =>
    have ha : UInt8.ofNat (a.toNat / 4 * 4 + a.toNat % 4 * 16 / 16) = a := hbyte (by omega)
    simp only [sextets, ofSextets?, ha]
  | [a, b] =>
    have hlt := b.toNat_lt
    have ha : UInt8.ofNat (a.toNat / 4 * 4 + (a.toNat % 4 * 16 + b.toNat / 16) / 16) = a := hbyte (by omega)
    have hb : UInt8.ofNat ((a.toNat % 4 * 16 + b.toNat / 16) % 16 * 16 + b.toNat % 16 * 4 / 4) = b := hbyte (by omega)
    simp only [sextets, ofSextets?, ha, hb]
  | [a, b, c] =>
    have hlt := b.toNat_lt
    have hlt' := c.toNat_lt
    have ha : UInt8.ofNat (a.toNat / 4 * 4 + (a.toNat % 4 * 16 + b.toNat / 16) / 16) = a := hbyte (by omega)
    have hb : UInt8.ofNat ((a.toNat % 4 * 16 + b.toNat / 16) % 16 * 16 + (b.toNat % 16 * 4 + c.toNat / 64) / 4) = b :=
      hbyte (by omega)
    have hc : UInt8.ofNat ((b.toNat % 16 * 4 + c.toNat / 64) % 4 * 64 + c.toNat % 64) = c := hbyte (by omega)
    simp only [sextets, ofSextets?, ha, hb, hc]

/-- A group of bytes is read back from its symbols. -/
theorem ofSextets?_symbols {group : List UInt8} (hne : group ≠ []) (hle : group.length ≤ 3) :
    ((symbols group).mapM symbolValue?).bind ofSextets? = some group := by
  have hvalues : ((sextets group).map symbol).mapM symbolValue? = some (sextets group) :=
    mapM_map_eq_some fun n hn => symbolValue?_symbol (sextets_lt group n hn)
  rw [symbols_eq, hvalues, Option.bind_some, ofSextets?_sextets hne hle]

theorem ofBase64?_base64 (bs : List UInt8) : ofBase64? (base64 bs).toList = some bs := by
  rw [base64, String.toList_ofList]
  fun_induction threes bs with
  | case1 a b c rest ih =>
    have hgroup := @ofSextets?_symbols [a, b, c] (by simp) (by simp)
    simp only [symbols, List.map_cons, List.map_nil] at hgroup
    simp only [List.flatMap_cons, symbols, List.map_cons, List.map_nil, List.cons_append, List.nil_append, ofBase64?,
      hgroup, ih, Option.bind_eq_bind, Option.bind_some, Option.pure_def]
  | case2 => rfl
  | case3 last hfew hne =>
    -- one byte or two are left
    rw [List.flatMap_cons, List.flatMap_nil, List.append_nil]
    rcases last with _ | ⟨a, _ | ⟨b, _ | ⟨c, rest⟩⟩⟩
    · exact absurd rfl hne
    · exact @ofSextets?_symbols [a] (by simp) (by simp)
    · exact @ofSextets?_symbols [a, b] (by simp) (by simp)
    · exact absurd rfl (hfew a b c rest)

/-! ## Numbers -/

/-- The number that one or more decimal digits stand for. -/
def natural? (cs : List Char) : Option Nat :=
  if cs.isEmpty || !cs.all Char.isDigit then none else some (Nat.ofDigitChars 10 cs 0)

/-- The numbers that stand between commas. -/
def naturals? (cs : List Char) : Option (List Nat) :=
  if cs.isEmpty then some [] else (cs.splitOn ',').mapM natural?

theorem isDigit_of_mem_toDigits {n : Nat} {c : Char} (h : c ∈ Nat.toDigits 10 n) : c.isDigit = true :=
  Nat.isDigit_of_mem_toDigits (by decide) (by decide) h

theorem natural?_toDigits (n : Nat) : natural? (Nat.toDigits 10 n) = some n := by
  have hdigits : (Nat.toDigits 10 n).all Char.isDigit = true :=
    List.all_eq_true.2 fun _ => isDigit_of_mem_toDigits
  have hne : (Nat.toDigits 10 n).isEmpty = false := by simp [Nat.toDigits_ne_nil]
  unfold natural?
  rw [hdigits, hne, Nat.ofDigitChars_ten_toDigits]
  rfl

theorem not_mem_toDigits {c : Char} (hc : c.isDigit = false) (n : Nat) : c ∉ Nat.toDigits 10 n := by
  intro hmem
  rw [isDigit_of_mem_toDigits hmem] at hc
  cases hc

theorem toList_decimals (ns : List Nat) : (decimals ns).toList = [','].intercalate (ns.map (Nat.toDigits 10)) := by
  have hlist : ns.map (String.toList ∘ toString) = ns.map (Nat.toDigits 10) :=
    List.map_congr_left fun n _ => Nat.toList_repr
  have hcomma : ",".toList = [','] := by decide
  rw [decimals, String.toList_intercalate, List.map_map, hlist, hcomma]

theorem not_mem_decimals {c : Char} (hc : c.isDigit = false) (hcomma : c ≠ ',') (ns : List Nat) :
    c ∉ (decimals ns).toList := by
  rw [toList_decimals]
  induction ns with
  | nil => simp
  | cons n ns ih =>
    cases ns with
    | nil => simpa using not_mem_toDigits hc n
    | cons m ns =>
      rw [List.map_cons] at ih ⊢
      simp only [List.map_cons, List.intercalate_cons_cons, List.mem_append, List.mem_singleton, not_or]
      exact ⟨⟨not_mem_toDigits hc n, hcomma⟩, ih⟩

theorem naturals?_decimals (ns : List Nat) : naturals? (decimals ns).toList = some ns := by
  rw [toList_decimals]
  cases ns with
  | nil => rfl
  | cons n ns =>
    have hcomma : ∀ l ∈ (n :: ns).map (Nat.toDigits 10), ',' ∉ l := by
      intro l hl
      obtain ⟨m, -, rfl⟩ := List.mem_map.1 hl
      exact not_mem_toDigits rfl m
    have hne : ([','].intercalate ((n :: ns).map (Nat.toDigits 10))).isEmpty = false := by
      cases ns <;> simp [Nat.toDigits_ne_nil]
    rw [naturals?, hne, List.splitOn_intercalate _ hcomma (by simp)]
    exact mapM_map_eq_some fun m _ => natural?_toDigits m

end Encoding

end Occupancy
