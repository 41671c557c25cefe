import Mathlib.Tactic.IntervalCases
import Monorepo.Proofs.Outcome
import Monorepo.Text.Utf8

/-! Characters as bytes and back. The bytes of a character say how many they are and are all that a
reader takes up for it, so a text is read back from its bytes; and of any bytes, what was read still
says which they were. -/
namespace Monorepo.Utf8

theorem lead?_one (v : Nat) (h : v < 0x80) : lead? v = some ⟨v, 0, 0x80, 0xbf⟩ := if_pos h

theorem lead?_two (k : Nat) (hlow : 2 ≤ k) (hhigh : k < 32) :
    lead? (k + 0xc0) = some ⟨k, 1, 0x80, 0xbf⟩ := by
  interval_cases k <;> rfl

/-- The first of three bytes leaves out what two would do for, and the surrogates. -/
theorem lead?_three (k : Nat) (h : k < 16) :
    lead? (k + 0xe0) =
      some ⟨k, 2, if k = 0 then 0xa0 else 0x80, if k = 13 then 0x9f else 0xbf⟩ := by
  interval_cases k <;> rfl

/-- The first of four bytes leaves out what three would do for, and what is too large. -/
theorem lead?_four (k : Nat) (h : k < 5) :
    lead? (k + 0xf0) =
      some ⟨k, 3, if k = 0 then 0x90 else 0x80, if k = 4 then 0x8f else 0xbf⟩ := by
  interval_cases k <;> rfl

/-- The byte for a digit to the base 64. -/
theorem toNat_digit (k : Nat) : (UInt8.ofNat (k % 64 + 0x80)).toNat = k % 64 + 0x80 := by
  rw [UInt8.toNat_ofNat']
  omega

theorem follow_digit {value low high n : Nat} (k : Nat) {bs : List UInt8}
    (hlow : low ≤ k % 64 + 0x80) (hhigh : k % 64 + 0x80 ≤ high) :
    follow value low high (n + 1) (UInt8.ofNat (k % 64 + 0x80) :: bs) =
      follow (value * 64 + k % 64) 0x80 0xbf n bs := by
  rw [follow, toNat_digit, if_pos ⟨hlow, hhigh⟩, Nat.add_sub_cancel]

/-- A reader takes up all bytes of a character and no more. -/
theorem exists_lead (c : Char) :
    ∃ b tail l, String.utf8EncodeChar c = b :: tail ∧ lead? b.toNat = some l ∧
      ∀ bs, follow l.value l.low l.high l.more (tail ++ bs) = (some c.toNat, bs) := by
  have hvalid : c.toNat < 0xd800 ∨ 0xdfff < c.toNat ∧ c.toNat < 0x110000 := c.valid
  have hv : c.val.toNat = c.toNat := rfl
  rw [String.utf8EncodeChar, hv]
  generalize c.toNat = v at hvalid
  split_ifs with h1 h2 h3
  · have hfirst : (UInt8.ofNat v).toNat = v := by
      rw [UInt8.toNat_ofNat']
      omega
    exact ⟨_, _, _, rfl, (congrArg lead? hfirst).trans (lead?_one v (by omega)), fun bs => rfl⟩
  · have hfirst : (UInt8.ofNat (v / 64 % 32 + 0xc0)).toNat = v / 64 + 0xc0 := by
      rw [UInt8.toNat_ofNat']
      omega
    refine ⟨_, _, _, rfl, (congrArg lead? hfirst).trans (lead?_two (v / 64) (by omega) (by omega)),
      fun bs => ?_⟩
    dsimp only
    rw [List.cons_append, follow_digit v (by omega) (by omega), follow, List.nil_append]
    congr 2
    omega
  · have hfirst : (UInt8.ofNat (v / 4096 % 16 + 0xe0)).toNat = v / 4096 + 0xe0 := by
      rw [UInt8.toNat_ofNat']
      omega
    refine ⟨_, _, _, rfl, (congrArg lead? hfirst).trans (lead?_three (v / 4096) (by omega)),
      fun bs => ?_⟩
    dsimp only
    rw [List.cons_append, follow_digit (v / 64) (by split_ifs <;> omega) (by split_ifs <;> omega),
      List.cons_append, follow_digit v (by omega) (by omega), follow, List.nil_append]
    congr 2
    omega
  · have hfirst : (UInt8.ofNat (v / 262144 % 8 + 0xf0)).toNat = v / 262144 + 0xf0 := by
      rw [UInt8.toNat_ofNat']
      omega
    refine ⟨_, _, _, rfl, (congrArg lead? hfirst).trans (lead?_four (v / 262144) (by omega)),
      fun bs => ?_⟩
    dsimp only
    rw [List.cons_append, follow_digit (v / 4096) (by split_ifs <;> omega) (by split_ifs <;> omega),
      List.cons_append, follow_digit (v / 64) (by omega) (by omega),
      List.cons_append, follow_digit v (by omega) (by omega), follow, List.nil_append]
    congr 2
    omega

theorem decode_encodeChar_append (c : Char) (bs : List UInt8) :
    decode (String.utf8EncodeChar c ++ bs) = .char c :: decode bs := by
  obtain ⟨b, tail, l, hc, hl, hfollow⟩ := exists_lead c
  rw [hc, List.cons_append, decode, hl]
  dsimp only
  rw [hfollow]
  dsimp only
  rw [Char.ofNat_toNat]

theorem mapM_char?_eq_some_iff {symbols : List Symbol} {cs : List Char} :
    symbols.mapM Symbol.char? = some cs ↔ symbols = cs.map .char := by
  have hchar (s : Symbol) (c : Char) : s.char? = some c ↔ s = .char c := by
    cases s <;> simp [Symbol.char?]
  rw [mapM_eq_some_iff, ← List.forall₂_eq_eq_eq, List.forall₂_map_right_iff]
  simp only [hchar]

theorem text?_eq_some_iff {symbols : List Symbol} {cs : List Char} :
    text? symbols = some (String.ofList cs) ↔ symbols = cs.map .char := by
  rw [text?, ← mapM_char?_eq_some_iff, Option.map_eq_some_iff]
  simp only [String.ofList_inj, exists_eq_right]

theorem decode?_eq_some_iff {bytes : List UInt8} {cs : List Char} :
    decode? bytes = some (String.ofList cs) ↔ decode bytes = cs.map .char := text?_eq_some_iff

theorem map_char_injective : Function.Injective (List.map Symbol.char) :=
  List.map_injective_iff.mpr fun _ _ => Symbol.char.inj

theorem shown_map_char (cs : List Char) : shown (cs.map .char) = cs := by
  rw [shown, List.map_map]
  exact List.map_id cs

theorem decodeLossy_of_decode? {bytes : List UInt8} {text : String}
    (h : decode? bytes = some text) : decodeLossy bytes = text := by
  rw [← String.ofList_toList (s := text)] at h
  rw [decodeLossy, decode?_eq_some_iff.mp h, shown_map_char, String.ofList_toList]

/-- A reader takes up bytes from the front. -/
theorem exists_follow_append (value low high n : Nat) (bs : List UInt8) :
    ∃ taken, bs = taken ++ (follow value low high n bs).2 := by
  induction n generalizing value low high bs with
  | zero => exact ⟨[], rfl⟩
  | succ n ih =>
    cases bs with
    | nil => exact ⟨[], rfl⟩
    | cons b bs =>
      rw [follow]
      split_ifs
      · obtain ⟨taken, h⟩ := ih (value * 64 + (b.toNat - 0x80)) 0x80 0xbf bs
        exact ⟨b :: taken, congrArg (b :: ·) h⟩
      · exact ⟨[], rfl⟩

theorem follow_succ_eq_some {value low high n v : Nat} {bs rest : List UInt8}
    (h : follow value low high (n + 1) bs = (some v, rest)) :
    ∃ b tail, bs = b :: tail ∧ low ≤ b.toNat ∧ b.toNat ≤ high ∧
      follow (value * 64 + (b.toNat - 0x80)) 0x80 0xbf n tail = (some v, rest) := by
  cases bs with
  | nil => cases h
  | cons b tail =>
    rw [follow] at h
    split_ifs at h with hb
    · exact ⟨b, tail, rfl, hb.1, hb.2, h⟩
    · cases h

theorem follow_zero_eq_some {value low high v : Nat} {bs rest : List UInt8}
    (h : follow value low high 0 bs = (some v, rest)) : v = value ∧ rest = bs := by
  cases h
  exact ⟨rfl, rfl⟩

theorem lead?_eq_some {b : UInt8} {l : Lead} (h : lead? b.toNat = some l) :
    (b.toNat < 0x80 ∧ l = ⟨b.toNat, 0, 0x80, 0xbf⟩) ∨
    (0xc2 ≤ b.toNat ∧ b.toNat < 0xe0 ∧ l = ⟨b.toNat - 0xc0, 1, 0x80, 0xbf⟩) ∨
    (0xe0 ≤ b.toNat ∧ b.toNat < 0xf0 ∧ l = ⟨b.toNat - 0xe0, 2,
      if b.toNat = 0xe0 then 0xa0 else 0x80, if b.toNat = 0xed then 0x9f else 0xbf⟩) ∨
    (0xf0 ≤ b.toNat ∧ b.toNat < 0xf5 ∧ l = ⟨b.toNat - 0xf0, 3,
      if b.toNat = 0xf0 then 0x90 else 0x80, if b.toNat = 0xf4 then 0x8f else 0xbf⟩) := by
  generalize b.toNat = n at h ⊢
  unfold lead? at h
  split_ifs at h with h1 h2 h3 h4 h5 h6 h7 h8 h9 <;> simp only [Option.some.injEq] at h <;> subst h
  · exact Or.inl ⟨h1, rfl⟩
  · exact Or.inr (Or.inl ⟨by omega, h3, rfl⟩)
  · subst h4
    exact Or.inr (Or.inr (Or.inl ⟨by omega, by omega, rfl⟩))
  · subst h5
    exact Or.inr (Or.inr (Or.inl ⟨by omega, by omega, rfl⟩))
  · exact Or.inr (Or.inr (Or.inl ⟨by omega, h6, by rw [if_neg h4, if_neg h5]⟩))
  · subst h7
    exact Or.inr (Or.inr (Or.inr ⟨by omega, by omega, rfl⟩))
  · have hn : n ≠ 0xf4 := by omega
    exact Or.inr (Or.inr (Or.inr ⟨by omega, by omega, by rw [if_neg h7, if_neg hn]⟩))
  · subst h9
    exact Or.inr (Or.inr (Or.inr ⟨by omega, by omega, rfl⟩))

theorem toNat_ofNat_of_isValidChar {v : Nat} (h : v.isValidChar) :
    (Char.ofNat v).val.toNat = v := by
  rw [Char.ofNat, dif_pos h]
  rfl

theorem ofNat_eq_of_toNat {b : UInt8} {n : Nat} (h : b.toNat = n) : UInt8.ofNat n = b := by
  rw [← h, UInt8.ofNat_toNat]

/-- What is taken up for a character are its bytes. -/
theorem encodeChar_of_follow {b : UInt8} {l : Lead} {v : Nat} {bs rest : List UInt8}
    (hl : lead? b.toNat = some l) (h : follow l.value l.low l.high l.more bs = (some v, rest)) :
    b :: bs = String.utf8EncodeChar (Char.ofNat v) ++ rest := by
  obtain ⟨hb, rfl⟩ | ⟨hlo, hhi, rfl⟩ | ⟨hlo, hhi, rfl⟩ | ⟨hlo, hhi, rfl⟩ := lead?_eq_some hl
  · obtain ⟨rfl, rfl⟩ := follow_zero_eq_some h
    dsimp only
    rw [String.utf8EncodeChar, toNat_ofNat_of_isValidChar (Or.inl (by omega)),
      if_pos (by omega), UInt8.ofNat_toNat]
    rfl
  · obtain ⟨c, tail, rfl, hc, hc', h⟩ := follow_succ_eq_some h
    obtain ⟨hv, rfl⟩ := follow_zero_eq_some h
    dsimp only at hc hc' hv
    rw [String.utf8EncodeChar, toNat_ofNat_of_isValidChar (Or.inl (by omega)),
      if_neg (by omega), if_pos (by omega), ofNat_eq_of_toNat (b := b) (by omega),
      ofNat_eq_of_toNat (b := c) (by omega)]
    rfl
  · obtain ⟨c, tail, rfl, hc, hc', h⟩ := follow_succ_eq_some h
    obtain ⟨d, tail, rfl, hd, hd', h⟩ := follow_succ_eq_some h
    obtain ⟨hv, rfl⟩ := follow_zero_eq_some h
    dsimp only at hc hc' hv
    have hrange : 0x80 ≤ c.toNat ∧ c.toNat ≤ 0xbf := by split_ifs at hc hc' <;> omega
    have hvalid : v.isValidChar := by
      unfold Nat.isValidChar
      split_ifs at hc hc' <;> omega
    have hlow : 0x7ff < v := by split_ifs at hc <;> omega
    rw [String.utf8EncodeChar, toNat_ofNat_of_isValidChar hvalid,
      if_neg (by omega), if_neg (by omega), if_pos (by omega),
      ofNat_eq_of_toNat (b := b) (by omega), ofNat_eq_of_toNat (b := c) (by omega),
      ofNat_eq_of_toNat (b := d) (by omega)]
    rfl
  · obtain ⟨c, tail, rfl, hc, hc', h⟩ := follow_succ_eq_some h
    obtain ⟨d, tail, rfl, hd, hd', h⟩ := follow_succ_eq_some h
    obtain ⟨e, tail, rfl, he, he', h⟩ := follow_succ_eq_some h
    obtain ⟨hv, rfl⟩ := follow_zero_eq_some h
    dsimp only at hc hc' hv
    have hrange : 0x80 ≤ c.toNat ∧ c.toNat ≤ 0xbf := by split_ifs at hc hc' <;> omega
    have hvalid : v.isValidChar := by
      unfold Nat.isValidChar
      split_ifs at hc hc' <;> omega
    have hlow : 0xffff < v := by split_ifs at hc <;> omega
    rw [String.utf8EncodeChar, toNat_ofNat_of_isValidChar hvalid,
      if_neg (by omega), if_neg (by omega), if_neg (by omega),
      ofNat_eq_of_toNat (b := b) (by omega), ofNat_eq_of_toNat (b := c) (by omega),
      ofNat_eq_of_toNat (b := d) (by omega), ofNat_eq_of_toNat (b := e) (by omega)]
    rfl

/-- Nothing is lost on reading. -/
theorem bytes_decode (bs : List UInt8) : bytes (decode bs) = bs := by
  fun_induction decode bs with
  | case1 => rfl
  | case2 b bs h ih =>
    change [b] ++ bytes (decode bs) = _
    rw [ih]
    rfl
  | case3 b bs l h hlen r symbol ih =>
    change symbol.bytes ++ bytes (decode r.2) = _
    rw [ih]
    cases hv : r.1 with
    | some v =>
      have hr : r = (some v, r.2) := Prod.ext hv rfl
      rw [encodeChar_of_follow h hr]
      simp only [symbol, hv]
      rfl
    | none =>
      obtain ⟨taken, ht⟩ := exists_follow_append l.value l.low l.high l.more bs
      have hlength : bs.length = taken.length + r.2.length := by
        rw [← List.length_append, ← ht]
      have htake : bs.take (bs.length - r.2.length) = taken := by
        rw [hlength, Nat.add_sub_cancel, ht, List.take_left]
      simp only [symbol, hv, Symbol.bytes, htake]
      exact congrArg (b :: ·) ht.symm

theorem low_le_of_lead? {b : UInt8} {l : Lead} (h : lead? b.toNat = some l) : 0x80 ≤ l.low := by
  obtain ⟨-, rfl⟩ | ⟨-, -, rfl⟩ | ⟨-, -, rfl⟩ | ⟨-, -, rfl⟩ := lead?_eq_some h
  · exact le_rfl
  · exact le_rfl
  · dsimp only
    split_ifs <;> decide
  · dsimp only
    split_ifs <;> decide

theorem follow_append {value low high n : Nat} {bs rest : List UInt8} {b : UInt8}
    (hlow : 0x80 ≤ low) (hb : b.toNat < 0x80) :
    follow value low high n (bs ++ b :: rest) =
      ((follow value low high n bs).1, (follow value low high n bs).2 ++ b :: rest) := by
  induction n generalizing value low high bs with
  | zero => rfl
  | succ n ih =>
    cases bs with
    | nil =>
      have hout : ¬ (low ≤ b.toNat ∧ b.toNat ≤ high) := by omega
      exact if_neg hout
    | cons c bs =>
      rw [List.cons_append, follow, follow]
      split_ifs
      · exact ih le_rfl
      · rfl

/-- No character and no fault goes on behind the beginning of a byte that is a character. -/
theorem decode_append {b : UInt8} (hb : b.toNat < 0x80) (bs rest : List UInt8) :
    decode (bs ++ b :: rest) = decode bs ++ decode (b :: rest) := by
  fun_induction decode bs with
  | case1 => rfl
  | case2 c bs h ih =>
    rw [List.cons_append, decode, h]
    exact congrArg (_ :: ·) ih
  | case3 c bs l h hlen r symbol ih =>
    have hfollow : follow l.value l.low l.high l.more (bs ++ b :: rest) = (r.1, r.2 ++ b :: rest) :=
      follow_append (low_le_of_lead? h) hb
    have htake : (bs ++ b :: rest).take ((bs ++ b :: rest).length - (r.2 ++ b :: rest).length) =
        bs.take (bs.length - r.2.length) := by
      rw [List.length_append, List.length_append, Nat.add_sub_add_right,
        List.take_append_of_le_length (Nat.sub_le _ _)]
    rw [List.cons_append, decode, h]
    dsimp only
    rw [hfollow, htake, ih]
    rfl

end Monorepo.Utf8
