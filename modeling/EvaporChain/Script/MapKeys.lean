import EvaporChain.Script.Value

/-!
# Keys of script maps

The key of a scalar is its text with a mark for the type. The key of a map or an array is a digest
of its text, in which strings are neither quoted nor escaped: the text is read back uniquely if the
strings in it keep clear of the delimiters and of the texts of other values.
-/

namespace EvaporChain.Script

open Core List

lemma hexEncode_injective : Function.Injective hexEncode := by
  have hdigit : ∀ m < 16, ∀ n < 16, Nat.digitChar m = Nat.digitChar n → m = n := by decide
  intro bs cs h
  replace h := String.ofList_injective h
  induction bs generalizing cs with
  | nil => cases cs with
    | nil => rfl
    | cons c cs => simp at h
  | cons b bs ih => cases cs with
    | nil => simp at h
    | cons c cs =>
      simp only [flatMap_cons, cons_append, nil_append, cons.injEq] at h
      obtain ⟨hhigh, hlow, hrest⟩ := h
      have hb := b.toNat_lt
      have hc := c.toNat_lt
      have hhigh := hdigit _ (by omega) _ (by omega) hhigh
      have hlow := hdigit _ (by omega) _ (by omega) hlow
      rw [ih hrest, UInt8.toNat_inj.mp (show b.toNat = c.toNat by omega)]

/-- Two texts that each end at the first character of a kind are equal if what they start is. -/
lemma append_delimited_inj {p : Char → Prop} {s t r r' : List Char} {a b : Char}
    (hs : ∀ ch ∈ s, ¬ p ch) (ht : ∀ ch ∈ t, ¬ p ch) (ha : p a) (hb : p b)
    (h : s ++ a :: r = t ++ b :: r') : s = t ∧ a :: r = b :: r' := by
  induction s generalizing t with
  | nil => cases t with
    | nil => exact ⟨rfl, h⟩
    | cons d t =>
      obtain ⟨rfl, -⟩ := cons.inj h
      exact absurd ha (ht a (mem_cons_self ..))
  | cons c s ih => cases t with
    | nil =>
      obtain ⟨rfl, -⟩ := cons.inj h
      exact absurd hb (hs c (mem_cons_self ..))
    | cons d t =>
      obtain ⟨rfl, hrest⟩ := cons.inj h
      obtain ⟨rfl, hr⟩ := ih (fun ch hch => hs ch (.tail _ hch)) (fun ch hch => ht ch (.tail _ hch))
        hrest
      exact ⟨rfl, hr⟩

namespace Value

/-- Characters that delimit the elements of a text. -/
def delimiters : List Char := [',', '[', ']', '\x7b', '\x7d']

/-- The values whose text does not depend on other values. -/
def Scalar : Value → Prop
  | .u64 _ | .bool _ | .address _ | .null => True
  | .str _ | .map _ | .array _ => False

/-- A string that is read back from the text around it: it is not empty, holds no delimiter and is
not the text of a number, a Boolean, an address or `null`. -/
structure Word (s : String) : Prop where
  ne_empty : s ≠ ""
  no_delimiter : ∀ ch ∈ s.toList, ch ∉ delimiters
  no_scalar : ∀ v : Value, v.Scalar → v.text ≠ s

mutual

/-- All strings of a value are words, and no key of a map in it holds a quotation mark. -/
def Legible : Value → Prop
  | .str s => Word s
  | .map m => LegibleEntries m
  | .array xs => LegibleElements xs
  | _ => True

def LegibleEntries : List (String × Value) → Prop
  | [] => True
  | (k, v) :: m => '"' ∉ k.toList ∧ v.Legible ∧ LegibleEntries m

def LegibleElements : List Value → Prop
  | [] => True
  | v :: xs => v.Legible ∧ LegibleElements xs

end

/-! ### Texts of scalars and words -/

lemma isDigit_of_mem_text {n : ℕ} {ch : Char} (h : ch ∈ (u64 n).text.toList) : ch.isDigit := by
  rw [text, Nat.toString_eq_repr, Nat.toList_repr] at h
  exact Nat.isDigit_of_mem_toDigits (by decide) (by decide) h

/-- A text with a character that is no digit is not the text of a number. -/
lemma text_u64_ne {n : ℕ} {t : String} (c : Char) (hmem : c ∈ t.toList)
    (hdigit : c.isDigit = false) : (u64 n).text ≠ t := by
  rintro rfl
  rw [isDigit_of_mem_text hmem] at hdigit
  exact absurd hdigit (by decide)

lemma text_scalar_injective {v w : Value} (hv : v.Scalar) (hw : w.Scalar)
    (h : v.text = w.text) : v = w := by
  cases v <;> cases w <;> simp only [Scalar] at hv hw
  case u64.u64 m n => rw [Nat.repr_inj.mp h]
  case address.address a b =>
    simp only [text, String.append_right_inj] at h
    rw [Vector.toList_injective (hexEncode_injective h)]
  case u64.bool n b => cases b <;> exact absurd h (text_u64_ne 'e' (by decide) (by decide))
  case bool.u64 b n => cases b <;> exact absurd h.symm (text_u64_ne 'e' (by decide) (by decide))
  case u64.null n => exact absurd h (text_u64_ne 'n' (by decide) (by decide))
  case null.u64 n => exact absurd h.symm (text_u64_ne 'n' (by decide) (by decide))
  case u64.address n a => exact absurd h (text_u64_ne 'x' (by simp [text]) (by decide))
  case address.u64 a n => exact absurd h.symm (text_u64_ne 'x' (by simp [text]) (by decide))
  case bool.bool a b => cases a <;> cases b <;> revert h <;> decide
  case bool.null b => cases b <;> revert h <;> decide
  case null.bool b => cases b <;> revert h <;> decide
  case bool.address b a => cases b <;> simp [text, String.ext_iff] at h
  case address.bool a b => cases b <;> simp [text, String.ext_iff] at h
  case null.address a => simp [text, String.ext_iff] at h
  case address.null a => simp [text, String.ext_iff] at h
  case null.null => rfl

lemma digitChar_no_delimiter : ∀ n < 16, Nat.digitChar n ∉ delimiters := by decide

variable {v : Value}

lemma no_delimiter_of_scalar (hv : v.Scalar) :
    ∀ ch ∈ v.text.toList, ch ∉ delimiters := by
  intro ch hch
  cases v with
  | u64 n =>
    intro hdelimiter
    have hdigits : ∀ ch ∈ delimiters, ch.isDigit = false := by simp [delimiters]
    exact absurd (isDigit_of_mem_text hch) (by simp [hdigits ch hdelimiter])
  | bool b =>
    revert ch
    cases b <;> simp [text, delimiters]
  | null =>
    revert ch
    simp [text, delimiters]
  | address a =>
    simp only [text, hexEncode, String.toList_append, String.toList_ofList, mem_append, mem_flatMap,
      mem_cons, not_mem_nil, or_false] at hch
    obtain hch | ⟨b, -, rfl | rfl⟩ := hch
    · revert ch
      simp [delimiters]
    · exact digitChar_no_delimiter _ (by have := b.toNat_lt; omega)
    · exact digitChar_no_delimiter _ (by omega)
  | str s => exact absurd hv id
  | map m => exact absurd hv id
  | array xs => exact absurd hv id

lemma text_ne_empty_of_scalar (hv : v.Scalar) : v.text.toList ≠ [] := by
  cases v with
  | u64 n => simp [text, Nat.toList_repr]
  | bool b => cases b <;> simp [text]
  | null => simp [text]
  | address a => simp [text]
  | str s => exact absurd hv id
  | map m => exact absurd hv id
  | array xs => exact absurd hv id

/-! ### Texts in a row -/

/-- What follows an element in the text of a collection. -/
def Stops (r : List Char) : Prop := ∃ ch rest, r = ch :: rest ∧ ch ∈ [',', ']', '\x7d']

/-- The text of an element is not empty and does not start like what follows an element. -/
def Opens (s : List Char) : Prop := ∃ ch rest, s = ch :: rest ∧ ch ∉ [',', ']', '\x7d']

section Rows

variable {α : Type*} {f : α → List Char} {close : Char} {xs ys : List α} {r r' : List Char}

/-- The texts of a list of items, with commas between them. -/
def row (f : α → List Char) : List α → List Char
  | [] => []
  | x :: xs => f x ++ xs.flatMap fun y => ',' :: ' ' :: f y

lemma intercalate_map_eq_row (f : α → List Char) :
    ∀ xs : List α, [',', ' '].intercalate (xs.map f) = row f xs
  | [] => rfl
  | [x] => by simp [row]
  | x :: y :: xs => by
    have ih := intercalate_map_eq_row f (y :: xs)
    rw [map_cons] at ih
    simp [row, intercalate_cons_cons, ih]

lemma stops_tail (hclose : close ∈ [']', '\x7d']) (f : α → List Char) (xs : List α) :
    Stops (xs.flatMap (fun y => ',' :: ' ' :: f y) ++ close :: r) := by
  cases xs with
  | nil => exact ⟨close, r, rfl, .tail _ hclose⟩
  | cons x xs => exact ⟨',', _, rfl, .head _⟩

/-- The items after the first are read one by one, if each of them is. -/
lemma tail_append_inj (hclose : close ∈ [']', '\x7d'])
    (hread : ∀ x ∈ xs, ∀ y ∈ ys, ∀ r r', Stops r → Stops r' → f x ++ r = f y ++ r' →
      x = y ∧ r = r')
    (h : xs.flatMap (fun y => ',' :: ' ' :: f y) ++ close :: r =
      ys.flatMap (fun y => ',' :: ' ' :: f y) ++ close :: r') : xs = ys ∧ r = r' := by
  have hcomma : close ≠ ',' := by rintro rfl; simp at hclose
  induction xs generalizing ys with
  | nil => cases ys with
    | nil => exact ⟨rfl, (cons.inj h).2⟩
    | cons y ys => exact absurd (cons.inj h).1 hcomma
  | cons x xs ih => cases ys with
    | nil => exact absurd (cons.inj h).1.symm hcomma
    | cons y ys =>
      simp only [flatMap_cons, cons_append, append_assoc, cons.injEq, true_and] at h
      obtain ⟨rfl, htail⟩ := hread x (.head _) y (.head _) _ _ (stops_tail hclose f xs)
        (stops_tail hclose f ys) h
      obtain ⟨rfl, hr⟩ := ih (fun x hx y hy => hread x (.tail _ hx) y (.tail _ hy)) htail
      exact ⟨rfl, hr⟩

lemma row_append_inj (hclose : close ∈ [']', '\x7d']) (hopens : ∀ x ∈ xs ++ ys, Opens (f x))
    (hread : ∀ x ∈ xs, ∀ y ∈ ys, ∀ r r', Stops r → Stops r' → f x ++ r = f y ++ r' →
      x = y ∧ r = r')
    (h : row f xs ++ close :: r = row f ys ++ close :: r') : xs = ys ∧ r = r' := by
  cases xs with
  | nil => cases ys with
    | nil => exact ⟨rfl, (cons.inj h).2⟩
    | cons y ys =>
      obtain ⟨ch, rest, hy, hch⟩ := hopens y (by simp)
      simp only [row, hy, nil_append, cons_append, cons.injEq] at h
      exact absurd (h.1 ▸ .tail _ hclose) hch
  | cons x xs => cases ys with
    | nil =>
      obtain ⟨ch, rest, hx, hch⟩ := hopens x (by simp)
      simp only [row, hx, nil_append, cons_append, cons.injEq] at h
      exact absurd (h.1 ▸ .tail _ hclose) hch
    | cons y ys =>
      refine tail_append_inj hclose hread ?_
      simpa only [row, flatMap_cons, cons_append, append_assoc, cons.injEq, true_and] using h

end Rows

/-! ### Texts of values -/

/-- Text of an entry of a map. -/
def entryChars (e : String × Value) : List Char :=
  '"' :: (e.1.toList ++ '"' :: ':' :: ' ' :: e.2.text.toList)

lemma elementTexts_eq : ∀ xs : List Value, elementTexts xs = xs.map text
  | [] => rfl
  | v :: xs => by rw [elementTexts, elementTexts_eq xs, map_cons]

lemma entryTexts_eq : ∀ m : List (String × Value),
    (entryTexts m).map String.toList = m.map entryChars
  | [] => rfl
  | (k, v) :: m => by simp [entryTexts, entryTexts_eq m, entryChars]

lemma text_array (xs : List Value) :
    (array xs).text.toList = '[' :: (row (text · |>.toList) xs ++ [']']) := by
  rw [← intercalate_map_eq_row]
  simp [text, elementTexts_eq, String.toList_intercalate, Function.comp_def]

lemma text_map (m : List (String × Value)) :
    (map m).text.toList = '\x7b' :: (row entryChars m ++ ['\x7d']) := by
  rw [← intercalate_map_eq_row, ← entryTexts_eq]
  simp [text, String.toList_intercalate]

/-- A value that is no collection. -/
def Simple (v : Value) : Prop := v.Scalar ∨ ∃ s, v = str s ∧ Word s

lemma Simple.text_ne_nil : v.Simple → v.text.toList ≠ []
  | .inl hv => text_ne_empty_of_scalar hv
  | .inr ⟨s, hs, hword⟩ => by simpa [hs, text] using hword.ne_empty

lemma Simple.no_delimiter : v.Simple → ∀ ch ∈ v.text.toList, ch ∉ delimiters
  | .inl hv => no_delimiter_of_scalar hv
  | .inr ⟨s, hs, hword⟩ => by simpa [hs, text] using hword.no_delimiter

lemma Simple.text_injective {v w : Value} (hv : v.Simple) (hw : w.Simple)
    (h : v.text = w.text) : v = w := by
  obtain hv | ⟨s, rfl, hs⟩ := hv <;> obtain hw | ⟨t, rfl, ht⟩ := hw
  · exact text_scalar_injective hv hw h
  · exact absurd h (ht.no_scalar v hv)
  · exact absurd h.symm (hs.no_scalar w hw)
  · exact congrArg str (by simpa [text] using h)

lemma Simple.head (hv : v.Simple) :
    ∃ ch rest, v.text.toList = ch :: rest ∧ ch ∉ delimiters := by
  obtain ⟨ch, rest, h⟩ := exists_cons_of_ne_nil hv.text_ne_nil
  exact ⟨ch, rest, h, hv.no_delimiter ch (by simp [h])⟩

lemma Legible.kind (hv : v.Legible) :
    v.Simple ∨ (∃ xs, v = array xs ∧ LegibleElements xs) ∨ ∃ m, v = map m ∧ LegibleEntries m := by
  cases v with
  | str s => exact .inl (.inr ⟨s, rfl, hv⟩)
  | map m => exact .inr (.inr ⟨m, rfl, hv⟩)
  | array xs => exact .inr (.inl ⟨xs, rfl, hv⟩)
  | u64 n | bool b | address a | null => exact .inl (.inl trivial)

lemma Legible.opens (hv : v.Legible) : Opens v.text.toList := by
  obtain hv | ⟨xs, rfl, -⟩ | ⟨m, rfl, -⟩ := hv.kind
  · obtain ⟨ch, rest, h, hch⟩ := hv.head
    exact ⟨ch, rest, h, fun hmem => hch (by revert ch; simp [delimiters]; tauto)⟩
  · exact ⟨_, _, text_array xs, by decide⟩
  · exact ⟨_, _, text_map m, by decide⟩

/-- The text of a value is told apart from every other text that may stand in its place. -/
def Reads (v : Value) : Prop :=
  ∀ w : Value, w.Legible → ∀ r r', Stops r → Stops r' →
    v.text.toList ++ r = w.text.toList ++ r' → v = w ∧ r = r'

lemma reads_simple (hv : v.Simple) : v.Reads := by
  rintro w hw r r' ⟨a, r, rfl, ha⟩ ⟨b, r', rfl, hb⟩ h
  have hstop : ∀ ch ∈ [',', ']', '\x7d'], ch ∈ delimiters := by simp [delimiters]
  obtain hw | ⟨ys, rfl, -⟩ | ⟨n, rfl, -⟩ := hw.kind
  · obtain ⟨htext, hr⟩ := append_delimited_inj (p := (· ∈ delimiters)) hv.no_delimiter
      hw.no_delimiter (hstop a ha) (hstop b hb) h
    exact ⟨hv.text_injective hw (String.toList_inj.mp htext), hr⟩
  all_goals
    obtain ⟨ch, rest, hch, hdelimiter⟩ := hv.head
    simp only [hch, text_array, text_map, cons_append, cons.injEq] at h
    exact absurd (h.1 ▸ by decide) hdelimiter

lemma legible_of_mem_elements :
    ∀ {xs : List Value}, LegibleElements xs → v ∈ xs → v.Legible
  | w :: xs, hxs, hv => by
    obtain rfl | hv := mem_cons.mp hv
    · exact hxs.1
    · exact legible_of_mem_elements hxs.2 hv

lemma legible_of_mem_entries {e : String × Value} :
    ∀ {m : List (String × Value)}, LegibleEntries m → e ∈ m → '"' ∉ e.1.toList ∧ e.2.Legible
  | (k, w) :: m, hm, he => by
    obtain rfl | he := mem_cons.mp he
    · exact ⟨hm.1, hm.2.1⟩
    · exact legible_of_mem_entries hm.2.2 he

lemma reads_array {xs : List Value} (hxs : LegibleElements xs) (hread : ∀ x ∈ xs, x.Reads) :
    (array xs).Reads := by
  intro w hw r r' _ _ h
  obtain hw | ⟨ys, rfl, hys⟩ | ⟨n, rfl, -⟩ := hw.kind
  · obtain ⟨ch, rest, hch, hdelimiter⟩ := hw.head
    simp only [hch, text_array, cons_append, cons.injEq] at h
    exact absurd (h.1 ▸ by decide) hdelimiter
  · simp only [text_array, cons_append, append_assoc, nil_append, cons.injEq, true_and] at h
    obtain ⟨rfl, hr⟩ := row_append_inj (by decide)
      (fun x hx => ((mem_append.mp hx).elim (legible_of_mem_elements hxs)
        (legible_of_mem_elements hys)).opens)
      (fun x hx y hy => hread x hx y (legible_of_mem_elements hys hy)) h
    exact ⟨rfl, hr⟩
  · simp [text_array, text_map] at h

/-- An entry is read if its value is: its key ends at the first quotation mark. -/
lemma reads_entry {e e' : String × Value} (hread : e.2.Reads) (he : '"' ∉ e.1.toList)
    (he' : '"' ∉ e'.1.toList) (hlegible : e'.2.Legible) {r r' : List Char} (hr : Stops r)
    (hr' : Stops r') (h : entryChars e ++ r = entryChars e' ++ r') : e = e' ∧ r = r' := by
  simp only [entryChars, cons_append, append_assoc, cons.injEq, true_and] at h
  obtain ⟨hkey, hvalue⟩ := append_delimited_inj (p := (· = '"')) (fun ch hch heq => he (heq ▸ hch))
    (fun ch hch heq => he' (heq ▸ hch)) rfl rfl h
  simp only [cons.injEq, true_and] at hvalue
  obtain ⟨hsame, hrest⟩ := hread e'.2 hlegible r r' hr hr' hvalue
  exact ⟨Prod.ext (String.toList_inj.mp hkey) hsame, hrest⟩

lemma reads_map {m : List (String × Value)} (hm : LegibleEntries m)
    (hread : ∀ e ∈ m, e.2.Reads) : (map m).Reads := by
  intro w hw r r' _ _ h
  obtain hw | ⟨ys, rfl, -⟩ | ⟨n, rfl, hn⟩ := hw.kind
  · obtain ⟨ch, rest, hch, hdelimiter⟩ := hw.head
    simp only [hch, text_map, cons_append, cons.injEq] at h
    exact absurd (h.1 ▸ by decide) hdelimiter
  · simp [text_array, text_map] at h
  · simp only [text_map, cons_append, append_assoc, nil_append, cons.injEq, true_and] at h
    obtain ⟨rfl, hr⟩ := row_append_inj (by decide) (fun e _ => ⟨'"', _, rfl, by decide⟩)
      (fun e he e' he' _ _ => reads_entry (hread e he) (legible_of_mem_entries hm he).1
        (legible_of_mem_entries hn he').1 (legible_of_mem_entries hn he').2) h
    exact ⟨rfl, hr⟩

mutual

lemma reads_of_legible : ∀ v : Value, v.Legible → v.Reads
  | .map m, hv => reads_map hv (reads_entries m hv)
  | .array xs, hv => reads_array hv (reads_elements xs hv)
  | .str s, hv => reads_simple (.inr ⟨s, rfl, hv⟩)
  | .u64 _, _ | .bool _, _ | .address _, _ | .null, _ => reads_simple (.inl trivial)

lemma reads_entries : ∀ m : List (String × Value), LegibleEntries m → ∀ e ∈ m, e.2.Reads
  | (k, v) :: m, hm, e, he => by
    have hv := reads_of_legible v hm.2.1
    have hrest := reads_entries m hm.2.2
    obtain rfl | he := mem_cons.mp he
    · exact hv
    · exact hrest e he

lemma reads_elements : ∀ xs : List Value, LegibleElements xs → ∀ x ∈ xs, x.Reads
  | v :: xs, hxs, x, hx => by
    have hv := reads_of_legible v hxs.1
    have hrest := reads_elements xs hxs.2
    obtain rfl | hx := mem_cons.mp hx
    · exact hv
    · exact hrest x hx

end

end Value

end EvaporChain.Script
