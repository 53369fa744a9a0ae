import Occupancy.Json.Reader
import Occupancy.Json.Writer
/-!
# What is written is read back

`ofTokens?_tokens`: the tokens of a value are read as that value, however deep it is nested.
-/

namespace Occupancy.Json

/-- After `[` the machine takes the first item as it takes any other. -/
theorem foldlM_firstItem (v : Json) (ts : List Token) (stack : List Frame) :
    (v.tokens ++ ts).foldlM Reader.step (.firstItem stack) =
      (v.tokens ++ ts).foldlM Reader.step (.value (.items [] :: stack)) := by
  cases v <;> rfl

/-- After an opening brace the machine takes the first key as it takes any other. -/
theorem foldlM_firstKey (m : JsonString × Json) (ms : List (JsonString × Json)) (ts : List Token)
    (stack : List Frame) :
    (memberTokens (m :: ms) ++ ts).foldlM Reader.step (.firstKey stack) =
      (memberTokens (m :: ms) ++ ts).foldlM Reader.step (.nextKey stack []) := by
  cases ms <;> rfl

mutual

theorem foldlM_tokens (v : Json) (ts : List Token) (stack : List Frame) :
    (v.tokens ++ ts).foldlM Reader.step (.value stack) = ts.foldlM Reader.step (Reader.deliver v stack) := by
  match v with
  | .null | .bool _ | .number _ | .string _ => rfl
  | .array [] => rfl
  | .array (v :: rest) =>
    have hi := foldlM_itemTokens (v :: rest) (by simp) (.closeBracket :: ts) stack []
    have hf : (itemTokens (v :: rest) ++ .closeBracket :: ts).foldlM Reader.step (.firstItem stack) =
        (itemTokens (v :: rest) ++ .closeBracket :: ts).foldlM Reader.step (.value (.items [] :: stack)) := by
      cases rest <;> simp only [itemTokens, List.append_assoc, foldlM_firstItem]
    simp only [tokens, List.cons_append, List.append_assoc, List.nil_append, List.foldlM_cons, Reader.step,
      Reader.openValue, Option.bind_eq_bind, Option.bind_some, hf, hi, List.append_nil, List.reverse_reverse]
  | .object [] => rfl
  | .object (m :: ms) =>
    have hm := foldlM_memberTokens (m :: ms) (by simp) (.closeBrace :: ts) stack []
    simp only [tokens, List.cons_append, List.append_assoc, List.nil_append, List.foldlM_cons, Reader.step,
      Reader.openValue, Option.bind_eq_bind, Option.bind_some, foldlM_firstKey, hm, List.append_nil,
      List.reverse_reverse]

theorem foldlM_itemTokens (items : List Json) (h : items ≠ []) (ts : List Token) (stack : List Frame)
    (done : List Json) :
    (itemTokens items ++ ts).foldlM Reader.step (.value (.items done :: stack)) =
      ts.foldlM Reader.step (.afterItem stack (items.reverse ++ done)) := by
  match items with
  | [] => exact absurd rfl h
  | [v] => exact foldlM_tokens v ts _
  | v :: w :: rest =>
    have hv := foldlM_tokens v (.comma :: (itemTokens (w :: rest) ++ ts)) (.items done :: stack)
    have hr := foldlM_itemTokens (w :: rest) (by simp) ts stack (v :: done)
    simp only [itemTokens, List.append_assoc, List.cons_append]
    rw [hv]
    simp only [Reader.deliver, List.foldlM_cons, Reader.step, Option.bind_eq_bind, Option.bind_some, hr,
      List.reverse_cons, List.append_assoc, List.cons_append, List.nil_append]

theorem foldlM_memberTokens (members : List (JsonString × Json)) (h : members ≠ []) (ts : List Token)
    (stack : List Frame) (done : List (JsonString × Json)) :
    (memberTokens members ++ ts).foldlM Reader.step (.nextKey stack done) =
      ts.foldlM Reader.step (.afterMember stack (members.reverse ++ done)) := by
  match members with
  | [] => exact absurd rfl h
  | [(key, v)] =>
    have hv := foldlM_tokens v ts (.members done key :: stack)
    simp only [memberTokens, List.cons_append, List.foldlM_cons, Reader.step, Option.bind_eq_bind,
      Option.bind_some, hv]
    rfl
  | (key, v) :: m :: ms =>
    have hv := foldlM_tokens v (.comma :: (memberTokens (m :: ms) ++ ts)) (.members done key :: stack)
    have hr := foldlM_memberTokens (m :: ms) (by simp) ts stack ((key, v) :: done)
    simp only [memberTokens, List.append_assoc, List.cons_append, List.foldlM_cons, Reader.step,
      Option.bind_eq_bind, Option.bind_some]
    rw [hv]
    simp only [Reader.deliver, List.foldlM_cons, Reader.step, Option.bind_eq_bind, Option.bind_some, hr,
      List.reverse_cons, List.append_assoc, List.cons_append, List.nil_append]

end

/-- The tokens of a value are read back as that value. -/
theorem ofTokens?_tokens (v : Json) : ofTokens? v.tokens = some v := by
  have h := foldlM_tokens v [] []
  rw [List.append_nil] at h
  rw [ofTokens?, h]
  rfl

end Occupancy.Json
