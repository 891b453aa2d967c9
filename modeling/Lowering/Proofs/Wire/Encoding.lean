import Lowering.Wire.Primitive

/-!
# What readers read

`Encodes n read a bytes` ties a reader to the bytes of one value: from `bytes` followed by anything
it reads `a` and leaves the rest, and from a part of `bytes` that ends too early it fails for that
reason alone. The number `n` bounds the bytes for which this is promised; readers of nested data
take such a bound, for all others it is arbitrary.

Readers are put together from readers, and so are encodings: `Encodes.bind` is the rule for
sequences. The second part of the module says what the primitives encode.
-/

namespace Lowering.Wire

/-- From `bytes` and whatever follows them the reader takes `a`, and no part of them that ends
earlier is enough. Both are promised for at most `n` bytes. -/
structure Encodes {α : Type} (n : Nat) (read : Reader α) (a : α) (bytes : List UInt8) : Prop where
  whole : bytes.length ≤ n → ∀ rest, read (bytes ++ rest) = .ok (a, rest)
  cut : ∀ part, part <+: bytes → part ≠ bytes → part.length ≤ n →
    read part = .error .unexpectedEnd

/-! ## Sequences -/

section Rules

variable {α β : Type} {m n : Nat} {read : Reader α} {next : α → Reader β} {a : α} {b : β}
  {xs ys : List UInt8}

/-- What is promised for `n` bytes is promised for fewer. -/
theorem Encodes.mono (h : Encodes n read a xs) (hmn : m ≤ n) : Encodes m read a xs where
  whole hxs := h.whole (Nat.le_trans hxs hmn)
  cut part hpart hne hlen := h.cut part hpart hne (Nat.le_trans hlen hmn)

theorem encodes_pure (a : α) : Encodes n (pure a) a [] where
  whole _ _ := rfl
  cut _ hpart hne := absurd (List.prefix_nil.mp hpart) hne

/-- A value after another. The first one uses up some of the bytes. -/
theorem Encodes.bind_sub (h : Encodes n read a xs) (hnext : Encodes (n - xs.length) (next a) b ys) :
    Encodes n (read >>= next) b (xs ++ ys) where
  whole hlen rest := by
    rw [List.length_append] at hlen
    show (read (xs ++ ys ++ rest) >>= fun (a, left) => next a left) = _
    rw [List.append_assoc, h.whole (by omega)]
    exact hnext.whole (by omega) rest
  cut part hpart hne hlen := by
    show (read part >>= fun (a, left) => next a left) = _
    by_cases hxs : xs <+: part
    · -- The first value is there, and the part ends within the second.
      obtain ⟨part', rfl⟩ := hxs
      have hpart' : part' <+: ys := (List.prefix_append_right_inj xs).mp hpart
      have hne' : part' ≠ ys := fun h => hne (h ▸ rfl)
      rw [List.length_append] at hlen
      rw [h.whole (by omega)]
      exact hnext.cut part' hpart' hne' (by omega)
    · have hpart' : part <+: xs :=
        (List.prefix_or_prefix_of_prefix hpart (List.prefix_append xs ys)).resolve_right hxs
      have hne' : part ≠ xs := fun h => hxs (h ▸ List.prefix_rfl)
      rw [h.cut part hpart' hne' hlen]
      rfl

/-- What two readers read one after the other is written one after the other. -/
theorem Encodes.bind (h : Encodes n read a xs) (hnext : Encodes n (next a) b ys) :
    Encodes n (read >>= next) b (xs ++ ys) :=
  h.bind_sub (hnext.mono (Nat.sub_le n xs.length))

/-- The last value of a sequence. -/
theorem Encodes.last (h : Encodes n read a xs) (hnext : next a = pure b) :
    Encodes n (read >>= next) b xs := by
  have hpure : Encodes n (next a) b [] := hnext ▸ encodes_pure b
  have hall := h.bind hpure
  rwa [List.append_nil] at hall

theorem Encodes.map (h : Encodes n read a xs) (f : α → β) :
    Encodes n (read >>= fun a => pure (f a)) (f a) xs :=
  h.last rfl

end Rules

/-! ## Bytes -/

variable {n : Nat}

theorem encodes_readByte (b : UInt8) : Encodes n readByte b [b] where
  whole _ _ := rfl
  cut part hpart hne _ := by
    cases part with
    | nil => rfl
    | cons c part =>
      obtain ⟨rfl, hnil⟩ := List.cons_prefix_cons.mp hpart
      rw [List.prefix_nil.mp hnil] at hne
      exact absurd rfl hne

theorem encodes_readBytes {count : Nat} {bytes : List UInt8} (h : bytes.length = count) :
    Encodes n (readBytes count) bytes bytes where
  whole _ rest := by
    unfold readBytes
    rw [if_pos (by simp [h]), ← h, List.take_left, List.drop_left]
  cut part hpart hne _ := by
    unfold readBytes
    have hlt : part.length < count := by
      rcases Nat.lt_or_ge part.length count with hlt | hge
      · exact hlt
      · exact absurd (hpart.eq_of_length_le (h ▸ hge)) hne
    rw [if_neg (by omega)]

/-! ## Natural numbers -/

/-- The last digit has no mark that more follow. -/
theorem encodes_lastDigit {lastMax left k : Nat} (hk : k < 128)
    (hlast : left = 0 → k ≤ lastMax) :
    Encodes n (readDigits lastMax (left + 1)) k [UInt8.ofNat k] := by
  have hbyte := UInt8.toNat_ofNat_of_lt' (show k < 256 by omega)
  refine (encodes_readByte (UInt8.ofNat k)).last ?_
  rw [if_pos (by omega), if_neg (by omega), hbyte]

/-- By induction on the digits that are left. The last one may be smaller than the others, to keep
within the width. -/
theorem encodes_readDigits {lastMax left k : Nat} (hlast : lastMax < 128)
    (hk : k < (lastMax + 1) * 128 ^ left) :
    Encodes n (readDigits lastMax (left + 1)) k (putNat k) := by
  induction left generalizing k with
  | zero =>
    rw [putNat, if_pos (by omega)]
    exact encodes_lastDigit (by omega) (by omega)
  | succ left ih =>
    rw [putNat]
    split
    · next hlt => exact encodes_lastDigit hlt (by omega)
    · next hge =>
      have hhigh : k / 128 < (lastMax + 1) * 128 ^ left := by
        rw [Nat.div_lt_iff_lt_mul (by decide), Nat.mul_assoc, ← Nat.pow_succ]
        exact hk
      have hbyte := UInt8.toNat_ofNat_of_lt' (show k % 128 + 128 < 256 by omega)
      refine (encodes_readByte _).bind ?_
      rw [if_neg (by omega), hbyte]
      have hdigits : k = k % 128 + 128 - 128 + 128 * (k / 128) := by omega
      conv => enter [3]; rw [hdigits]
      exact (ih hhigh).map _

/-- The number fits into `width` bits. -/
def fitsNat (width k : Nat) : Bool := k < 2 ^ width

/-- A number that fits in the width is read back. -/
theorem encodes_readNat {width k : Nat} (hwidth : 0 < width) (hk : fitsNat width k = true) :
    Encodes n (readNat width) k (putNat k) := by
  obtain ⟨left, hleft⟩ : ∃ left, (width + 6) / 7 = left + 1 := ⟨(width + 6) / 7 - 1, by omega⟩
  unfold readNat
  rw [hleft]
  show Encodes n (readDigits (2 ^ (width - 7 * left) - 1) (left + 1)) k (putNat k)
  have htop : 2 ^ (width - 7 * left) ≤ 2 ^ 7 := Nat.pow_le_pow_right (by decide) (by omega)
  have hpos : 0 < 2 ^ (width - 7 * left) := Nat.two_pow_pos _
  apply encodes_readDigits
  · omega
  · have hwhole : (2 ^ (width - 7 * left) - 1 + 1) * 128 ^ left = 2 ^ width := by
      rw [Nat.sub_add_cancel hpos, show (128 : Nat) = 2 ^ 7 from rfl, ← Nat.pow_mul, ← Nat.pow_add]
      congr 1
      omega
    rw [hwhole]
    simpa [fitsNat] using hk

/-- Every number takes a byte at least. -/
theorem putNat_ne_nil (k : Nat) : putNat k ≠ [] := by
  rw [putNat]
  split <;> simp

/-! ## Signed numbers and words -/

/-- The signed number fits into `width` bits. -/
def fitsInt (width : Nat) (z : Int) : Bool := -(2 ^ (width - 1)) ≤ z && z < 2 ^ (width - 1)

/-- Folding the sign in takes no more room than the sign did. -/
theorem fitsNat_fold {width : Nat} {z : Int} (hwidth : 0 < width) (hz : fitsInt width z = true) :
    fitsNat width (fold z) = true := by
  obtain ⟨half, rfl⟩ : ∃ half, width = half + 1 := ⟨width - 1, by omega⟩
  have hpow : 2 ^ (half + 1) = 2 * 2 ^ half := Nat.pow_succ'
  have hcast : (2 : Int) ^ half = ((2 ^ half : Nat) : Int) := by simp
  simp only [fitsInt, fitsNat, Bool.and_eq_true, decide_eq_true_eq, Nat.add_sub_cancel,
    hcast] at hz ⊢
  unfold fold
  split <;> omega

/-- An integer that fits in the width is read back. -/
theorem encodes_readInt {width : Nat} {z : Int} (hwidth : 0 < width)
    (hz : fitsInt width z = true) : Encodes n (readInt width) z (putInt z) := by
  have h := (encodes_readNat (n := n) hwidth (fitsNat_fold hwidth hz)).map unfold
  rw [unfold_fold] at h
  exact h

theorem length_putWord (count w : Nat) : (putWord count w).length = count := by
  induction count generalizing w with
  | zero => rfl
  | succ count ih => simp [putWord, ih]

/-- By induction on the bytes, the lowest of which comes first. -/
theorem wordOf_putWord {count w : Nat} (h : w < 256 ^ count) : wordOf (putWord count w) = w := by
  induction count generalizing w with
  | zero =>
    simp [putWord, wordOf]
    omega
  | succ count ih =>
    have hhigh : w / 256 < 256 ^ count := by
      rw [Nat.div_lt_iff_lt_mul (by decide), ← Nat.pow_succ]
      exact h
    rw [putWord, wordOf, ih hhigh, UInt8.toNat_ofNat_of_lt' (Nat.mod_lt w (by decide)),
      Nat.mod_add_div]

theorem encodes_readWord {count w : Nat} (h : w < 256 ^ count) :
    Encodes n (readWord count) w (putWord count w) := by
  have hword := (encodes_readBytes (n := n) (length_putWord count w)).map wordOf
  rw [wordOf_putWord h] at hword
  exact hword

/-! ## Truth values, texts, lists, options -/

theorem encodes_readBool (b : Bool) : Encodes n readBool b (putBool b) := by
  refine (encodes_readByte _).last ?_
  cases b <;> rfl

/-- A text whose length can be written. -/
def fitsString (s : String) : Bool := fitsNat 64 (utf8 s).length

/-- A string is written as its length in bytes and its bytes, which are valid when they are read. -/
theorem encodes_readString {s : String} (h : fitsString s = true) :
    Encodes n readString s (putString s) := by
  refine (encodes_readNat (by decide) h).bind ?_
  have htext : String.fromUTF8? ⟨(utf8 s).toArray⟩ = some s := by
    simp [utf8, String.fromUTF8?, String.fromUTF8, s.isValidUTF8]
  refine (encodes_readBytes rfl).last ?_
  rw [htext]

section Items

variable {α : Type} {read : Reader α} {put : α → List UInt8}

/-- By induction on the elements. -/
theorem encodes_readMany {xs : List α} (h : ∀ x ∈ xs, Encodes n read x (put x)) :
    Encodes n (readMany read xs.length) xs (xs.flatMap put) := by
  induction xs with
  | nil => exact encodes_pure []
  | cons x xs ih =>
    obtain ⟨hx, hxs⟩ := List.forall_mem_cons.mp h
    exact hx.bind ((ih hxs).map _)

/-- A list whose length can be written, of items that can. -/
def fitsList (fits : α → Bool) (xs : List α) : Bool := fitsNat 64 xs.length && xs.all fits

/-- A list is written with its length, so that its end is known. -/
theorem encodes_readList {fits : α → Bool} {xs : List α} (hxs : fitsList fits xs = true)
    (h : ∀ x, fits x = true → Encodes n read x (put x)) :
    Encodes n (readList read) xs (putList put xs) := by
  obtain ⟨hlen, hall⟩ := Bool.and_eq_true_iff.mp hxs
  refine (encodes_readNat (by decide) hlen).bind (encodes_readMany fun x hx => h x ?_)
  exact List.all_eq_true.mp hall x hx

/-- A byte tells whether there is something. -/
theorem encodes_readOption {fits : α → Bool} {o : Option α} (ho : o.all fits = true)
    (h : ∀ x, fits x = true → Encodes n read x (put x)) :
    Encodes n (readOption read) o (putOption put o) := by
  cases o with
  | none => exact (encodes_readByte 0).last rfl
  | some x => exact (encodes_readByte 1).bind ((h x ho).map some)

/-! ## Constructor numbers -/

theorem encodes_readIndex {i : Nat} (h : fitsNat 32 i = true) :
    Encodes n readIndex i (putIndex i) :=
  encodes_readNat (by decide) h

/-- An element of a table is written as its place. The place is found, as the first one. -/
theorem encodes_readOneOf [BEq α] [LawfulBEq α] {items : List α} {a : α} (ha : a ∈ items)
    (hlen : fitsNat 32 items.length = true) :
    Encodes n (readOneOf items) a (putOneOf items a) := by
  have hidx : items.idxOf a < items.length := List.idxOf_lt_length_of_mem ha
  have hfits : fitsNat 32 (items.idxOf a) = true := by
    simp only [fitsNat, decide_eq_true_eq] at hlen ⊢
    omega
  have hitem : items[items.idxOf a]? = some a := by
    rw [List.getElem?_eq_getElem hidx, List.getElem_idxOf]
  refine (encodes_readIndex hfits).last ?_
  rw [hitem]

end Items

end Lowering.Wire
