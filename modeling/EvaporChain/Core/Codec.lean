import EvaporChain.Core.Bytes

/-!
# Reading concatenated fields

A field is read off the front of a byte string if its end can be told, because its length is fixed
or known.
-/

namespace Core

open List

variable {α : Type} {xs ys : Bytes}

/-- Two values whose encodings, with anything behind them, are told apart. -/
def Delimits (enc : α → Bytes) (a b : α) : Prop :=
  ∀ xs ys, enc a ++ xs = enc b ++ ys → a = b ∧ xs = ys

variable {enc : α → Bytes}

/-- Encodings of the same length. -/
lemma delimits_of_length {a b : α} (hlength : (enc a).length = (enc b).length)
    (hinj : enc a = enc b → a = b) : Delimits enc a b := by
  intro xs ys h
  obtain ⟨henc, hrest⟩ := append_inj h hlength
  exact ⟨hinj henc, hrest⟩

lemma delimits_hash (a b : Hash) : Delimits List.Vector.toList a b :=
  delimits_of_length (by simp) fun h => List.Vector.toList_injective h

lemma delimits_leBytes {w m n : ℕ} (hm : m < 256 ^ w) (hn : n < 256 ^ w) :
    Delimits (leBytes w) m n := delimits_of_length (by simp) (leBytes_inj hm hn)

lemma delimits_u64 {m n : ℕ} (hm : m < 2 ^ 64) (hn : n < 2 ^ 64) : Delimits (leBytes 8) m n :=
  delimits_leBytes hm hn

lemma Delimits.append_iff {a b : α} (h : Delimits enc a b) :
    enc a ++ xs = enc b ++ ys ↔ a = b ∧ xs = ys := by
  refine ⟨h xs ys, ?_⟩
  rintro ⟨rfl, rfl⟩
  rfl

/-- The last field. -/
lemma Delimits.eq {a b : α} (h : Delimits enc a b) (heq : enc a = enc b) :
    a = b := (h [] [] (by rw [heq])).1

/-- A list of fields, one delimited against the other. -/
lemma delimits_flatMap {l l' : List α} (h : List.Forall₂ (Delimits enc) l l') :
    Delimits (fun l => l.flatMap enc) l l' := by
  induction h with
  | nil => exact fun xs ys h => ⟨rfl, h⟩
  | @cons a b l l' hab _ ih =>
    intro xs ys h
    simp only [flatMap_cons, append_assoc] at h
    obtain ⟨rfl, htail⟩ := hab _ _ h
    obtain ⟨rfl, hrest⟩ := ih _ _ htail
    exact ⟨rfl, hrest⟩

/-- The same number of delimited fields. -/
lemma forall₂_of_length {R : α → α → Prop} {l l' : List α} (hlength : l.length = l'.length)
    (hR : ∀ a ∈ l, ∀ b ∈ l', R a b) : List.Forall₂ R l l' := by
  induction l generalizing l' with
  | nil =>
    cases l' with
    | nil => exact .nil
    | cons b l' => cases hlength
  | cons a l ih =>
    cases l' with
    | nil => cases hlength
    | cons b l' =>
      refine .cons (hR a mem_cons_self b (.head _)) (ih (by simpa using hlength) ?_)
      intro a' ha' b' hb'
      exact hR a' (.tail _ ha') b' (.tail _ hb')

/-- An optional field behind a presence byte. -/
def tagged (enc : Option Bytes) : Bytes :=
  match enc with
  | some bytes => 1 :: bytes
  | none => [0]

lemma delimits_tagged {a b : Option α}
    (h : ∀ x ∈ a, ∀ y ∈ b, Delimits enc x y) : Delimits (fun o => tagged (o.map enc)) a b := by
  intro xs ys heq
  cases a with
  | none =>
    cases b with
    | none => exact ⟨rfl, by simpa using heq⟩
    | some y => simp [tagged] at heq
  | some x =>
    cases b with
    | none => simp [tagged] at heq
    | some y =>
      simp only [Option.map_some, tagged, cons_append, List.cons.injEq, true_and] at heq
      obtain ⟨rfl, hrest⟩ := h x rfl y rfl _ _ heq
      exact ⟨rfl, hrest⟩

/-- A byte string behind its length in four bytes. -/
def lengthPrefixed (bytes : Bytes) : Bytes := leBytes 4 bytes.length ++ bytes

lemma lengthPrefixed_injective : Function.Injective lengthPrefixed := by
  intro a b h
  exact (append_inj h (by simp)).2

lemma delimits_lengthPrefixed {a b : Bytes} (h : a.length = b.length) :
    Delimits lengthPrefixed a b :=
  delimits_of_length (by simp [lengthPrefixed, h]) fun heq => lengthPrefixed_injective heq

/-- Lengths that fit are read back. -/
lemma delimits_lengthPrefixed_of_lt {a b : Bytes} (ha : a.length < 256 ^ 4)
    (hb : b.length < 256 ^ 4) : Delimits lengthPrefixed a b := by
  intro xs ys h
  have hfront : leBytes 4 a.length ++ (a ++ xs) = leBytes 4 b.length ++ (b ++ ys) := by
    simpa [lengthPrefixed] using h
  obtain ⟨hlength, -⟩ := delimits_leBytes ha hb _ _ hfront
  exact delimits_lengthPrefixed hlength xs ys h

/-- A word at the end. -/
lemma leBytes_suffix {w m n : ℕ} (hm : m < 256 ^ w) (hn : n < 256 ^ w)
    (h : xs ++ leBytes w m = ys ++ leBytes w n) : xs = ys ∧ m = n := by
  obtain ⟨hrest, hword⟩ := List.append_inj' h (by simp)
  exact ⟨hrest, leBytes_inj hm hn hword⟩

/-- A 32-byte array at the end. -/
lemma hash_suffix {a b : Hash} (h : xs ++ a.toList = ys ++ b.toList) : xs = ys ∧ a = b := by
  obtain ⟨hrest, harray⟩ := List.append_inj' h (by simp)
  exact ⟨hrest, List.Vector.toList_injective harray⟩

/-! ### Hashes -/

section

variable {D H : Type} {hash : D → H} {inputs inputs' : List D}

/-- A hash function that tells the given inputs apart. -/
def CollisionFree (hash : D → H) (inputs : List D) : Prop :=
  ∀ x ∈ inputs, ∀ y ∈ inputs, hash x = hash y → x = y

instance [DecidableEq D] [DecidableEq H] : Decidable (CollisionFree hash inputs) :=
  inferInstanceAs (Decidable (∀ x ∈ inputs, ∀ y ∈ inputs, hash x = hash y → x = y))

lemma CollisionFree.mono (h : CollisionFree hash inputs) (hsub : inputs' ⊆ inputs) :
    CollisionFree hash inputs' :=
  fun x hx y hy heq => h x (hsub hx) y (hsub hy) heq

end

/-! ### Texts -/

lemma byteArray_toList_loop (bytes : ByteArray) (i : ℕ) (r : Bytes) :
    ByteArray.toList.loop bytes i r = r.reverse ++ bytes.data.toList.drop i := by
  fun_induction ByteArray.toList.loop bytes i r with
  | case1 i r hi ih =>
    have hlt : i < bytes.data.toList.length := by simpa using hi
    have hget : bytes.get! i = bytes.data.toList[i] := getElem!_pos bytes.data i hi
    rw [ih, drop_eq_getElem_cons hlt, reverse_cons, hget, append_assoc]
    rfl
  | case2 i r hi =>
    have hle : bytes.data.toList.length ≤ i := by simpa using hi
    rw [drop_eq_nil_of_le hle, append_nil]

lemma byteArray_toList (bytes : ByteArray) : bytes.toList = bytes.data.toList := by
  simp [ByteArray.toList, byteArray_toList_loop]

lemma toUTF8_toList_injective : Function.Injective fun text : String => text.toUTF8.toList := by
  intro s t h
  simp only [byteArray_toList] at h
  apply String.toByteArray_inj.mp
  apply ByteArray.ext
  exact Array.toList_inj.mp h

end Core
