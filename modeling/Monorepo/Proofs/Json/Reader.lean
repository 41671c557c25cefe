import Monorepo.Json.Reader
import Monorepo.Proofs.Json.Scan

/-! What a reading depends on. Steps and brackets that are left over do no harm, and neither does
text behind the value; only as many brackets are opened as the value has one inside the other. -/
namespace Monorepo.Json

inductive ReadsValue (care : Care) (fuel depth : Nat) :
    (c : Char) → (cs : List Char) → (v : Json) → (rest : List Char) → Prop
  | array {cs rest : List Char} {items : List Json} (hd : care = .full → depth ≠ 0)
    (h : readItems care fuel (depth - 1) true cs = .ok (items, rest)) :
    ReadsValue care fuel depth '[' cs (.array items) rest
  | object {cs rest : List Char} {members : List (String × Json)} (hd : care = .full → depth ≠ 0)
    (h : readMembers care fuel (depth - 1) true cs = .ok (members, rest)) :
    ReadsValue care fuel depth '{' cs (.object members) rest
  | string {cs rest s : List Char} (h : readString care cs = .ok (s, rest)) :
    ReadsValue care fuel depth '"' cs (.string (String.ofList s)) rest
  | null {cs rest : List Char} (h : readWord ['u', 'l', 'l'] cs = .ok rest) :
    ReadsValue care fuel depth 'n' cs .null rest
  | yes {cs rest : List Char} (h : readWord ['r', 'u', 'e'] cs = .ok rest) :
    ReadsValue care fuel depth 't' cs (.bool true) rest
  | no {cs rest : List Char} (h : readWord ['a', 'l', 's', 'e'] cs = .ok rest) :
    ReadsValue care fuel depth 'f' cs (.bool false) rest
  | number {c : Char} {cs rest literal : List Char} (hc : c = '-' ∨ c.isDigit = true)
    (h : readNumber care (c :: cs) = .ok (literal, rest)) :
    ReadsValue care fuel depth c cs (.number literal) rest

variable {care : Care} {fuel depth : Nat} {cs rest : List Char}

theorem checkDepth_eq_ok_iff :
    checkDepth care depth cs = .ok () ↔ (care = .full → depth ≠ 0) := by
  unfold checkDepth
  split_ifs with h
  · exact ⟨nofun, fun hd => absurd h.2 (hd h.1)⟩
  · exact ⟨fun _ hc hd => h ⟨hc, hd⟩, fun _ => rfl⟩

theorem readValue_eq_ok_iff {v : Json} :
    readValue care (fuel + 1) depth cs = .ok (v, rest) ↔
      ∃ c cs', skipBlank cs = c :: cs' ∧ ReadsValue care fuel depth c cs' v rest := by
  rw [readValue]
  cases hs : skipBlank cs with
  | nil => simp [stopAt]
  | cons c cs' =>
    have hone (P : Char → List Char → Prop) :
        (∃ d ds, c :: cs' = d :: ds ∧ P d ds) ↔ P c cs' := by simp
    rw [hone]
    dsimp only
    constructor
    · intro h
      split_ifs at h with ha ho hq hn ht hf hnum
      · subst ha
        obtain ⟨⟨⟩, hd, h⟩ := (bind_eq_ok_iff _ _ _).mp h
        obtain ⟨⟨items, _⟩, hi, h⟩ := (bind_eq_ok_iff _ _ _).mp h
        cases h
        exact .array (checkDepth_eq_ok_iff.mp hd) hi
      · subst ho
        obtain ⟨⟨⟩, hd, h⟩ := (bind_eq_ok_iff _ _ _).mp h
        obtain ⟨⟨members, _⟩, hm, h⟩ := (bind_eq_ok_iff _ _ _).mp h
        cases h
        exact .object (checkDepth_eq_ok_iff.mp hd) hm
      · subst hq
        obtain ⟨⟨s, _⟩, hs, h⟩ := (bind_eq_ok_iff _ _ _).mp h
        cases h
        exact .string hs
      · subst hn
        obtain ⟨_, hw, h⟩ := (bind_eq_ok_iff _ _ _).mp h
        cases h
        exact .null hw
      · subst ht
        obtain ⟨_, hw, h⟩ := (bind_eq_ok_iff _ _ _).mp h
        cases h
        exact .yes hw
      · subst hf
        obtain ⟨_, hw, h⟩ := (bind_eq_ok_iff _ _ _).mp h
        cases h
        exact .no hw
      · obtain ⟨⟨literal, _⟩, hl, h⟩ := (bind_eq_ok_iff _ _ _).mp h
        cases h
        exact .number hnum hl
      · cases h
    · intro h
      cases h with
      | array hd h =>
        rw [if_pos rfl, checkDepth_eq_ok_iff.mpr hd]
        change (readItems _ _ _ _ _ >>= _) = _
        rw [h]
        rfl
      | object hd h =>
        rw [if_neg (by decide), if_pos rfl, checkDepth_eq_ok_iff.mpr hd]
        change (readMembers _ _ _ _ _ >>= _) = _
        rw [h]
        rfl
      | string h =>
        rw [if_neg (by decide), if_neg (by decide), if_pos rfl, h]
        rfl
      | null h =>
        simp only [h]
        rfl
      | yes h =>
        simp only [h]
        rfl
      | no h =>
        simp only [h]
        rfl
      | number hc h =>
        have hne (d : Char) (hd : d ≠ '-' ∧ d.isDigit = false) : c ≠ d := by
          rintro rfl
          exact hc.elim hd.1 (by simp [hd.2])
        rw [if_neg (hne _ (by decide)), if_neg (hne _ (by decide)), if_neg (hne _ (by decide)),
          if_neg (hne _ (by decide)), if_neg (hne _ (by decide)), if_neg (hne _ (by decide)),
          if_pos hc, h]
        rfl

/-- The next item or member begins at `start`. All but the first stand behind a comma. -/
inductive Next (close : Char) : (first : Bool) → (cs start : List Char) → Prop
  | first {c : Char} {cs cs' : List Char} (h : skipBlank cs = c :: cs') (hc : c ≠ close) :
    Next close true cs (c :: cs')
  | other {c : Char} {cs cs₁ cs₂ : List Char} (h : skipBlank cs = ',' :: cs₁)
    (h₁ : skipBlank cs₁ = c :: cs₂) (hc : c ≠ close) : Next close false cs (c :: cs₂)

theorem readItems_eq_ok_iff {first : Bool} {items : List Json} :
    readItems care (fuel + 1) depth first cs = .ok (items, rest) ↔
      (skipBlank cs = ']' :: rest ∧ items = []) ∨
      ∃ start v mid items', Next ']' first cs start ∧
        readValue care fuel depth start = .ok (v, mid) ∧
        readItems care fuel depth false mid = .ok (items', rest) ∧ items = v :: items' := by
  rw [readItems]
  constructor
  · intro h
    cases hs : skipBlank cs with
    | nil =>
      rw [hs] at h
      cases h
    | cons c cs₁ =>
      rw [hs] at h
      dsimp only at h
      split_ifs at h with hc hf hcomma
      · cases h
        exact Or.inl ⟨by rw [hc], rfl⟩
      · subst hf
        obtain ⟨⟨v, mid⟩, hv, h⟩ := (bind_eq_ok_iff _ _ _).mp h
        obtain ⟨⟨items', _⟩, hi, h⟩ := (bind_eq_ok_iff _ _ _).mp h
        cases h
        exact Or.inr ⟨_, v, mid, items', .first hs hc, hv, hi, rfl⟩
      · cases hs₁ : skipBlank cs₁ with
        | nil =>
          rw [hs₁] at h
          cases h
        | cons d cs₂ =>
          rw [hs₁] at h
          dsimp only at h
          split_ifs at h with hd
          · cases h
          · obtain ⟨⟨v, mid⟩, hv, h⟩ := (bind_eq_ok_iff _ _ _).mp h
            obtain ⟨⟨items', _⟩, hi, h⟩ := (bind_eq_ok_iff _ _ _).mp h
            cases h
            refine Or.inr ⟨_, v, mid, items', ?_, hv, hi, rfl⟩
            rw [Bool.eq_false_iff.mpr hf]
            exact .other (hcomma ▸ hs) hs₁ hd
      · cases h
  · rintro (⟨hs, rfl⟩ | ⟨start, v, mid, items', hn, hv, hi, rfl⟩)
    · rw [hs]
      rfl
    · cases hn with
      | first hs hc =>
        rw [hs]
        dsimp only
        rw [if_neg hc, if_pos rfl, hv]
        change (readItems _ _ _ _ _ >>= _) = _
        rw [hi]
        rfl
      | other hs hs₁ hc =>
        rw [hs]
        dsimp only
        rw [hs₁, if_neg (by decide), if_neg (by decide), if_pos rfl]
        dsimp only
        rw [if_neg hc, hv]
        change (readItems _ _ _ _ _ >>= _) = _
        rw [hi]
        rfl

theorem readMembers_eq_ok_iff {first : Bool} {members : List (String × Json)} :
    readMembers care (fuel + 1) depth first cs = .ok (members, rest) ↔
      (skipBlank cs = '}' :: rest ∧ members = []) ∨
      ∃ start, Next '}' first cs start ∧
        readMember care fuel depth start = .ok (members, rest) := by
  rw [readMembers]
  constructor
  · intro h
    cases hs : skipBlank cs with
    | nil =>
      rw [hs] at h
      cases h
    | cons c cs₁ =>
      rw [hs] at h
      dsimp only at h
      split_ifs at h with hc hf hcomma
      · cases h
        exact Or.inl ⟨by rw [hc], rfl⟩
      · subst hf
        exact Or.inr ⟨_, .first hs hc, h⟩
      · cases hs₁ : skipBlank cs₁ with
        | nil =>
          rw [hs₁] at h
          cases h
        | cons d cs₂ =>
          rw [hs₁] at h
          dsimp only at h
          split_ifs at h with hd
          · cases h
          · rw [Bool.eq_false_iff.mpr hf]
            exact Or.inr ⟨_, .other (hcomma ▸ hs) hs₁ hd, h⟩
      · cases h
  · rintro (⟨hs, rfl⟩ | ⟨start, hn, hm⟩)
    · rw [hs]
      rfl
    · cases hn with
      | first hs hc =>
        rw [hs]
        dsimp only
        rw [if_neg hc, if_pos rfl, hm]
      | other hs hs₁ hc =>
        rw [hs]
        dsimp only
        rw [hs₁, if_neg (by decide), if_neg (by decide), if_pos rfl]
        dsimp only
        rw [if_neg hc, hm]

theorem readMember_eq_ok_iff {members : List (String × Json)} :
    readMember care (fuel + 1) depth cs = .ok (members, rest) ↔
      ∃ key cs₁ cs₂ v cs₃ members', readKey care cs = .ok (key, cs₁) ∧
        readColon cs₁ = .ok cs₂ ∧ readValue care fuel depth cs₂ = .ok (v, cs₃) ∧
        readMembers care fuel depth false cs₃ = .ok (members', rest) ∧
        members = (String.ofList key, v) :: members' := by
  rw [readMember]
  constructor
  · intro h
    obtain ⟨⟨key, cs₁⟩, hk, h⟩ := (bind_eq_ok_iff _ _ _).mp h
    obtain ⟨cs₂, hc, h⟩ := (bind_eq_ok_iff _ _ _).mp h
    obtain ⟨⟨v, cs₃⟩, hv, h⟩ := (bind_eq_ok_iff _ _ _).mp h
    obtain ⟨⟨members', _⟩, hm, h⟩ := (bind_eq_ok_iff _ _ _).mp h
    cases h
    exact ⟨key, cs₁, cs₂, v, cs₃, members', hk, hc, hv, hm, rfl⟩
  · rintro ⟨key, cs₁, cs₂, v, cs₃, members', hk, hc, hv, hm, rfl⟩
    refine (bind_eq_ok_iff _ _ _).mpr ⟨_, hk, ?_⟩
    refine (bind_eq_ok_iff _ _ _).mpr ⟨_, hc, ?_⟩
    refine (bind_eq_ok_iff _ _ _).mpr ⟨_, hv, ?_⟩
    exact (bind_eq_ok_iff _ _ _).mpr ⟨_, hm, rfl⟩

mutual

def nesting : Json → Nat
  | array items => nestingOfItems items + 1
  | object members => nestingOfMembers members + 1
  | _ => 0

def nestingOfItems : List Json → Nat
  | [] => 0
  | v :: rest => max (nesting v) (nestingOfItems rest)

def nestingOfMembers : List (String × Json) → Nat
  | [] => 0
  | (_, v) :: rest => max (nesting v) (nestingOfMembers rest)

end

theorem nestingOfItems_le_iff {items : List Json} {depth : Nat} :
    nestingOfItems items ≤ depth ↔ ∀ v ∈ items, nesting v ≤ depth := by
  induction items with
  | nil => exact ⟨fun _ => nofun, fun _ => Nat.zero_le _⟩
  | cons v rest ih => rw [nestingOfItems, Nat.max_le, ih, List.forall_mem_cons]

theorem nestingOfMembers_le_iff {members : List (String × Json)} {depth : Nat} :
    nestingOfMembers members ≤ depth ↔ ∀ m ∈ members, nesting m.2 ≤ depth := by
  induction members with
  | nil => exact ⟨fun _ => nofun, fun _ => Nat.zero_le _⟩
  | cons m rest ih => rw [nestingOfMembers, Nat.max_le, ih, List.forall_mem_cons]

structure WithinDepth (fuel : Nat) : Prop where
  value {depth : Nat} {cs rest : List Char} {v : Json}
    (h : readValue .full fuel depth cs = .ok (v, rest)) : nesting v ≤ depth
  items {depth : Nat} {first : Bool} {cs rest : List Char} {items : List Json}
    (h : readItems .full fuel depth first cs = .ok (items, rest)) : nestingOfItems items ≤ depth
  members {depth : Nat} {first : Bool} {cs rest : List Char} {members : List (String × Json)}
    (h : readMembers .full fuel depth first cs = .ok (members, rest)) :
      nestingOfMembers members ≤ depth
  member {depth : Nat} {cs rest : List Char} {members : List (String × Json)}
    (h : readMember .full fuel depth cs = .ok (members, rest)) : nestingOfMembers members ≤ depth

theorem withinDepth (fuel : Nat) : WithinDepth fuel := by
  induction fuel with
  | zero =>
    -- without a step nothing is read
    constructor <;> intros <;> simp_all [readValue, readItems, readMembers, readMember, stopAt]
  | succ fuel ih =>
    constructor
    · intro depth cs rest v h
      obtain ⟨c, cs', -, h⟩ := readValue_eq_ok_iff.mp h
      cases h with
      | array hd h =>
        have hi := ih.items h
        have hpos := hd rfl
        rw [nesting]
        omega
      | object hd h =>
        have hm := ih.members h
        have hpos := hd rfl
        rw [nesting]
        omega
      | _ => exact Nat.zero_le _
    · intro depth first cs rest items h
      obtain ⟨-, rfl⟩ | ⟨start, v, mid, items', -, hv, hi, rfl⟩ := readItems_eq_ok_iff.mp h
      · exact Nat.zero_le _
      · exact Nat.max_le.mpr ⟨ih.value hv, ih.items hi⟩
    · intro depth first cs rest members h
      obtain ⟨-, rfl⟩ | ⟨start, -, hm⟩ := readMembers_eq_ok_iff.mp h
      · exact Nat.zero_le _
      · exact ih.member hm
    · intro depth cs rest members h
      obtain ⟨_, _, _, _, _, _, -, -, hv, hm, rfl⟩ := readMember_eq_ok_iff.mp h
      exact Nat.max_le.mpr ⟨ih.value hv, ih.members hm⟩

variable {tail : List Char}

theorem Next.append {close : Char} {first : Bool} {start : List Char}
    (h : Next close first cs start) : Next close first (cs ++ tail) (start ++ tail) := by
  cases h with
  | first h hc => exact .first (skipBlank_append h) hc
  | other h h₁ hc => exact .other (skipBlank_append h) (skipBlank_append h₁) hc

theorem readKey_append {key : List Char} (h : readKey care cs = .ok (key, rest)) :
    readKey care (cs ++ tail) = .ok (key, rest ++ tail) := by
  cases cs with
  | nil => cases h
  | cons c cs =>
    rw [readKey] at h
    rw [List.cons_append, readKey]
    split_ifs at h ⊢ with hc
    · exact readString_append h
    · cases h

theorem readColon_append (h : readColon cs = .ok rest) :
    readColon (cs ++ tail) = .ok (rest ++ tail) := by
  unfold readColon at h ⊢
  cases hs : skipBlank cs with
  | nil =>
    rw [hs] at h
    cases h
  | cons c cs' =>
    rw [hs] at h
    rw [skipBlank_append hs]
    dsimp only at h ⊢
    split_ifs at h ⊢
    · cases h
      rfl
    · cases h

/-- What is read with so many steps is read with more of them too, if as many brackets may be opened
as it has, and with text behind it. -/
structure Extends (care : Care) (fuel : Nat) : Prop where
  value {depth : Nat} {cs rest : List Char} {v : Json}
    (h : readValue care fuel depth cs = .ok (v, rest)) {fuel' depth' : Nat} (hf : fuel ≤ fuel')
    (hd : nesting v ≤ depth') {tail : List Char} (ht : EndsNumber tail) :
    readValue care fuel' depth' (cs ++ tail) = .ok (v, rest ++ tail)
  items {depth : Nat} {first : Bool} {cs rest : List Char} {items : List Json}
    (h : readItems care fuel depth first cs = .ok (items, rest)) {fuel' depth' : Nat}
    (hf : fuel ≤ fuel') (hd : nestingOfItems items ≤ depth') {tail : List Char}
    (ht : EndsNumber tail) :
    readItems care fuel' depth' first (cs ++ tail) = .ok (items, rest ++ tail)
  members {depth : Nat} {first : Bool} {cs rest : List Char} {members : List (String × Json)}
    (h : readMembers care fuel depth first cs = .ok (members, rest)) {fuel' depth' : Nat}
    (hf : fuel ≤ fuel') (hd : nestingOfMembers members ≤ depth') {tail : List Char}
    (ht : EndsNumber tail) :
    readMembers care fuel' depth' first (cs ++ tail) = .ok (members, rest ++ tail)
  member {depth : Nat} {cs rest : List Char} {members : List (String × Json)}
    (h : readMember care fuel depth cs = .ok (members, rest)) {fuel' depth' : Nat}
    (hf : fuel ≤ fuel') (hd : nestingOfMembers members ≤ depth') {tail : List Char}
    (ht : EndsNumber tail) :
    readMember care fuel' depth' (cs ++ tail) = .ok (members, rest ++ tail)

/-- One step of a value. -/
theorem ReadsValue.append {c : Char} {v : Json} (ih : Extends care fuel)
    (h : ReadsValue care fuel depth c cs v rest) {fuel' depth' : Nat} (hf : fuel ≤ fuel')
    (hd : nesting v ≤ depth') (ht : EndsNumber tail) :
    ReadsValue care fuel' depth' c (cs ++ tail) v (rest ++ tail) := by
  cases h with
  | array _ h =>
    rw [nesting] at hd
    exact .array (fun _ => Nat.ne_zero_of_lt hd) (ih.items h hf (Nat.le_sub_one_of_lt hd) ht)
  | object _ h =>
    rw [nesting] at hd
    exact .object (fun _ => Nat.ne_zero_of_lt hd) (ih.members h hf (Nat.le_sub_one_of_lt hd) ht)
  | string h => exact .string (readString_append h)
  | null h => exact .null (readWord_append h)
  | yes h => exact .yes (readWord_append h)
  | no h => exact .no (readWord_append h)
  | number hc h => exact .number hc (readNumber_append ht (List.cons_ne_nil _ _) h)

theorem extends_all (care : Care) (fuel : Nat) : Extends care fuel := by
  induction fuel with
  | zero =>
    -- without a step nothing is read
    constructor <;> intros <;> simp_all [readValue, readItems, readMembers, readMember, stopAt]
  | succ fuel ih =>
    constructor
    · intro depth cs rest v h fuel' depth' hf hd tail ht
      obtain ⟨n, rfl⟩ := Nat.exists_eq_succ_of_ne_zero (Nat.ne_zero_of_lt hf)
      obtain ⟨c, cs', hs, h⟩ := readValue_eq_ok_iff.mp h
      exact readValue_eq_ok_iff.mpr
        ⟨c, cs' ++ tail, skipBlank_append hs, h.append ih (Nat.le_of_succ_le_succ hf) hd ht⟩
    · intro depth first cs rest items h fuel' depth' hf hd tail ht
      obtain ⟨n, rfl⟩ := Nat.exists_eq_succ_of_ne_zero (Nat.ne_zero_of_lt hf)
      have hn := Nat.le_of_succ_le_succ hf
      refine readItems_eq_ok_iff.mpr ?_
      obtain ⟨hs, rfl⟩ | ⟨start, v, mid, items', hnext, hv, hi, rfl⟩ := readItems_eq_ok_iff.mp h
      · exact Or.inl ⟨skipBlank_append hs, rfl⟩
      · obtain ⟨hdv, hdi⟩ := Nat.max_le.mp hd
        exact Or.inr ⟨start ++ tail, v, mid ++ tail, items', hnext.append, ih.value hv hn hdv ht,
          ih.items hi hn hdi ht, rfl⟩
    · intro depth first cs rest members h fuel' depth' hf hd tail ht
      obtain ⟨n, rfl⟩ := Nat.exists_eq_succ_of_ne_zero (Nat.ne_zero_of_lt hf)
      have hn := Nat.le_of_succ_le_succ hf
      refine readMembers_eq_ok_iff.mpr ?_
      obtain ⟨hs, rfl⟩ | ⟨start, hnext, hm⟩ := readMembers_eq_ok_iff.mp h
      · exact Or.inl ⟨skipBlank_append hs, rfl⟩
      · exact Or.inr ⟨start ++ tail, hnext.append, ih.member hm hn hd ht⟩
    · intro depth cs rest members h fuel' depth' hf hd tail ht
      obtain ⟨n, rfl⟩ := Nat.exists_eq_succ_of_ne_zero (Nat.ne_zero_of_lt hf)
      have hn := Nat.le_of_succ_le_succ hf
      obtain ⟨key, cs₁, cs₂, v, cs₃, members', hk, hc, hv, hm, rfl⟩ :=
        readMember_eq_ok_iff.mp h
      obtain ⟨hdv, hdm⟩ := Nat.max_le.mp hd
      exact readMember_eq_ok_iff.mpr ⟨key, cs₁ ++ tail, cs₂ ++ tail, v, cs₃ ++ tail, members',
        readKey_append hk, readColon_append hc, ih.value hv hn hdv ht, ih.members hm hn hdm ht, rfl⟩

theorem endsNumber_nil : EndsNumber [] := by
  intro c hc
  cases hc

/-- Steps, brackets and readers may differ, but not what is read. -/
theorem readValue_unique {fuel' depth' : Nat} {v w : Json} {rest' : List Char}
    (h : readValue .full fuel depth cs = .ok (v, rest))
    (h' : readValue .full fuel' depth' cs = .ok (w, rest')) : v = w ∧ rest = rest' := by
  have hv := (extends_all .full fuel).value h (Nat.le_max_left fuel fuel')
    (Nat.le_max_left (nesting v) (nesting w)) endsNumber_nil
  have hw := (extends_all .full fuel').value h' (Nat.le_max_right fuel fuel')
    (Nat.le_max_right (nesting v) (nesting w)) endsNumber_nil
  rw [hv] at hw
  simpa using hw

theorem readEnd_eq_ok_iff : readEnd cs = .ok () ↔ skipBlank cs = [] := by
  unfold readEnd
  cases skipBlank cs <;> simp [stopAt]

def Holds (text : String) (v : Json) : Prop :=
  ∃ rest, readFirst text.toList = .ok (v, rest) ∧ readEnd rest = .ok ()

theorem Holds.unique {text : String} {v w : Json} (hv : Holds text v) (hw : Holds text w) :
    v = w := by
  obtain ⟨_, hv, -⟩ := hv
  obtain ⟨_, hw, -⟩ := hw
  rw [hv] at hw
  cases hw
  rfl

/-- `text` is one value, however many brackets that takes. -/
def Spells (text : String) (v : Json) : Prop :=
  ∃ depth rest, readValue .full (fuelFor text.toList) depth text.toList = .ok (v, rest) ∧
    readEnd rest = .ok ()

theorem Spells.holds {text : String} {v : Json} (h : Spells text v) (hn : nesting v ≤ depthLimit) :
    Holds text v := by
  obtain ⟨depth, rest, hv, he⟩ := h
  have hread := (extends_all .full _).value hv le_rfl hn endsNumber_nil
  rw [List.append_nil, List.append_nil] at hread
  exact ⟨rest, hread, he⟩

theorem endsNumber_brace : EndsNumber ['}'] := by
  intro c hc
  cases hc
  decide

def memberText (key cs : List Char) : List Char :=
  '{' :: '"' :: (key ++ '"' :: ':' :: (cs ++ ['}']))

section
variable {key cs : List Char} (hkey : readString .full (key ++ ['"']) = .ok (key, []))
include hkey

theorem readFirst_memberText_eq_ok_iff {w : Json} {rest' : List Char} :
    readFirst (memberText key cs) = .ok (w, rest') ↔
      ∃ v mid members, readValue .full (fuelFor (key ++ cs) + 12) (depthLimit - 1) (cs ++ ['}']) =
          .ok (v, mid) ∧
        readMembers .full (fuelFor (key ++ cs) + 12) (depthLimit - 1) false mid =
          .ok (members, rest') ∧
        w = .object ((String.ofList key, v) :: members) := by
  have hfuel : fuelFor (memberText key cs) = fuelFor (key ++ cs) + 15 := by
    simp [fuelFor, memberText]
    omega
  have hk : readKey .full ('"' :: (key ++ '"' :: ':' :: (cs ++ ['}']))) =
      .ok (key, ':' :: (cs ++ ['}'])) := by
    have happ : readString .full (key ++ ['"'] ++ ':' :: (cs ++ ['}'])) =
        .ok (key, ':' :: (cs ++ ['}'])) := readString_append hkey
    rw [List.append_assoc] at happ
    exact happ
  rw [readFirst, hfuel, readValue_eq_ok_iff]
  constructor
  · rintro ⟨c, cs', hs, h⟩
    cases (show memberText key cs = c :: cs' from hs)
    cases h with
    | number hc _ => exact absurd hc (by decide)
    | object _ h =>
      obtain ⟨hs, -⟩ | ⟨start, hnext, h⟩ := readMembers_eq_ok_iff.mp h
      · cases (show '"' :: (key ++ '"' :: ':' :: (cs ++ ['}'])) = '}' :: rest' from hs)
      · cases hnext with
        | first hs _ =>
          obtain ⟨key', cs₁, cs₂, v, mid, members, hk', hc, hv, hm, rfl⟩ :=
            readMember_eq_ok_iff.mp h
          cases hs
          cases hk.symm.trans hk'
          cases hc
          exact ⟨v, mid, members, hv, hm, rfl⟩
  · rintro ⟨v, mid, members, hv, hm, rfl⟩
    refine ⟨_, _, rfl, .object (fun _ => by decide) ?_⟩
    refine readMembers_eq_ok_iff.mpr (Or.inr ⟨_, .first rfl (by decide), ?_⟩)
    exact readMember_eq_ok_iff.mpr ⟨key, _, _, v, mid, members, hk, rfl, hv, hm, rfl⟩

/-- An object with one member is read if the value of that member leaves a bracket for it. -/
theorem readFirst_memberText {v : Json} {rest : List Char} (hv : readFirst cs = .ok (v, rest))
    (he : readEnd rest = .ok ()) (hn : nesting v < depthLimit) :
    readFirst (memberText key cs) = .ok (.object [(String.ofList key, v)], []) := by
  have hfuel : fuelFor cs ≤ fuelFor (key ++ cs) + 12 := by
    simp only [fuelFor, List.length_append]
    omega
  have hclose : skipBlank (rest ++ ['}']) = ['}'] :=
    skipBlank_append_of_blank (readEnd_eq_ok_iff.mp he)
  refine (readFirst_memberText_eq_ok_iff hkey).mpr ⟨v, rest ++ ['}'], [], ?_, ?_, rfl⟩
  · exact (extends_all .full _).value hv hfuel (Nat.le_sub_one_of_lt hn) endsNumber_brace
  · exact readMembers_eq_ok_iff.mpr (Or.inl ⟨hclose, rfl⟩)

theorem nesting_lt_of_readFirst_memberText {v w : Json} {rest rest' : List Char}
    (hv : readFirst cs = .ok (v, rest)) (h : readFirst (memberText key cs) = .ok (w, rest')) :
    nesting v < depthLimit := by
  obtain ⟨v', mid, members, hv', -, -⟩ := (readFirst_memberText_eq_ok_iff hkey).mp h
  have hlong := (extends_all .full _).value hv le_rfl ((withinDepth _).value hv) endsNumber_brace
  obtain ⟨rfl, -⟩ := readValue_unique hlong hv'
  exact Nat.lt_of_le_sub_one (by decide) ((withinDepth _).value hv')

end

end Monorepo.Json
