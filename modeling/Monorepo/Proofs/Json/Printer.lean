import Monorepo.Json.Printer
import Monorepo.Proofs.Json.Reader

/-! Values printed and read back. Each escape of a string is undone on its own, and what stands
behind a printed value is left alone as long as it does not go on with a number. -/
namespace Monorepo.Json

theorem readQuad_hexDigit {n : Nat} (h : n < 0x20) :
    readQuad ['0', '0', hexDigit (n / 16), hexDigit n] = .ok n := by
  have hall : ∀ n < 0x20,
      4 ≤ Utf8.size (['0', '0', hexDigit (n / 16), hexDigit n].take 4) ∧
      hexQuad? ['0', '0', hexDigit (n / 16), hexDigit n] = some n := by decide
  exact readQuad_eq_ok_iff.mpr (hall n h)

theorem readString_backslash {c : Char} {n : Nat} {cs : List Char}
    (h : readEscape .full cs = .ok (c, n)) :
    readString .full ('\\' :: cs) =
      (readString .full (cs.drop n)).map fun (s, rest) => (c :: s, rest) := by
  rw [readString, if_neg (by decide), if_pos rfl, h]

theorem readString_escaped {c e : Char} (h : escaped? e = some c) (cs : List Char) :
    readString .full (['\\', e] ++ cs) =
      (readString .full cs).map fun (s, rest) => (c :: s, rest) := by
  have he : readEscape .full (e :: cs) = .ok (c, 1) := by rw [readEscape, h]
  exact readString_backslash he

/-- A control character without an escape of its own. -/
theorem readEscape_control {c : Char} (h : c.toNat < 0x20) (cs : List Char) :
    readEscape .full ('u' :: '0' :: '0' :: hexDigit (c.toNat / 16) :: hexDigit c.toNat :: cs) =
      .ok (c, 5) := by
  have hq : readQuad (['0', '0', hexDigit (c.toNat / 16), hexDigit c.toNat] ++ cs) =
      .ok c.toNat := (readQuad_append (readQuad_hexDigit h) cs).2
  have hlow : Care.full = .skim ∨ c.toNat < 0xd800 ∨ 0xdfff < c.toNat := by omega
  change (readQuad (['0', '0', hexDigit (c.toNat / 16), hexDigit c.toNat] ++ cs) >>= _) = _
  rw [hq]
  change (if Care.full = .skim ∨ c.toNat < 0xd800 ∨ 0xdfff < c.toNat then _ else _) = _
  rw [if_pos hlow, Char.ofNat_toNat]
  rfl

theorem readString_escape (c : Char) (cs : List Char) :
    readString .full (escape c ++ cs) =
      (readString .full cs).map fun (s, rest) => (c :: s, rest) := by
  unfold escape
  split_ifs with hq hb h8 h12 hn hr ht hlow
  · subst hq
    exact readString_escaped rfl cs
  · subst hb
    exact readString_escaped rfl cs
  · obtain rfl : c = '\x08' := Char.toNat_inj.mp h8
    exact readString_escaped rfl cs
  · obtain rfl : c = '\x0c' := Char.toNat_inj.mp h12
    exact readString_escaped rfl cs
  · subst hn
    exact readString_escaped rfl cs
  · subst hr
    exact readString_escaped rfl cs
  · subst ht
    exact readString_escaped rfl cs
  · exact readString_backslash (readEscape_control hlow cs)
  · rw [List.singleton_append, readString, if_neg hq, if_neg hb, if_neg hlow]

theorem readString_flatMap_escape (s rest : List Char) :
    readString .full (s.flatMap escape ++ '"' :: rest) = .ok (s, rest) := by
  induction s with
  | nil =>
    change readString .full ('"' :: rest) = _
    rw [readString, if_pos rfl]
  | cons c s ih =>
    rw [List.flatMap_cons, List.append_assoc, readString_escape, ih]
    rfl

theorem printString_append (s : String) (rest : List Char) :
    printString s ++ rest = '"' :: (s.toList.flatMap escape ++ '"' :: rest) := by
  rw [printString, List.cons_append, List.append_assoc]
  rfl

theorem readKey_printString (s : String) (rest : List Char) :
    readKey .full (printString s ++ rest) = .ok (s.toList, rest) := by
  rw [printString_append, readKey, if_pos rfl, readString_flatMap_escape]

mutual

def IsSpelled : Json → Prop
  | number literal => readNumber .full literal = .ok (literal, [])
  | array items => ItemsSpelled items
  | object members => MembersSpelled members
  | _ => True

def ItemsSpelled : List Json → Prop
  | [] => True
  | v :: rest => IsSpelled v ∧ ItemsSpelled rest

def MembersSpelled : List (String × Json) → Prop
  | [] => True
  | (_, v) :: rest => IsSpelled v ∧ MembersSpelled rest

end

/-- A printed list from its first item on, or from the comma behind an item on. -/
def itemsText : (first : Bool) → List Json → List Char
  | true, items => printItems items
  | false, [] => []
  | false, v :: rest => ',' :: printItems (v :: rest)

def membersText : (first : Bool) → List (String × Json) → List Char
  | true, members => printMembers members
  | false, [] => []
  | false, m :: rest => ',' :: printMembers (m :: rest)

theorem printItems_cons (v : Json) (rest : List Json) :
    printItems (v :: rest) = print v ++ itemsText false rest := by
  cases rest with
  | nil => rw [printItems, itemsText, List.append_nil]
  | cons w rest => simp [printItems, itemsText]

theorem printMembers_cons (k : String) (v : Json) (rest : List (String × Json)) :
    printMembers ((k, v) :: rest) =
      printString k ++ ':' :: (print v ++ membersText false rest) := by
  cases rest with
  | nil => rw [printMembers, membersText, List.append_nil]
  | cons w rest => simp [printMembers, membersText]

/-- What a number begins with. -/
theorem exists_eq_cons_of_readNumber {cs literal rest : List Char}
    (h : readNumber .full cs = .ok (literal, rest)) :
    ∃ c cs', cs = c :: cs' ∧ (c = '-' ∨ c.isDigit = true) := by
  obtain ⟨whole, cs₁, _, _, _, hw, -⟩ := readNumber_eq_ok_iff.mp h
  cases cs with
  | nil => cases hw
  | cons c cs =>
    refine ⟨c, cs, rfl, ?_⟩
    by_cases hs : c = '-'
    · exact Or.inl hs
    · rw [List.head?_cons, if_neg (by simpa using hs)] at hw
      unfold readWhole at hw
      split at hw
      · cases hw
      · next hc =>
        obtain ⟨rfl, -⟩ := List.cons_eq_cons.mp hc
        exact Or.inr rfl
      · next hc =>
        obtain ⟨rfl, -⟩ := List.cons_eq_cons.mp hc
        split_ifs at hw with hd
        · exact Or.inr hd
        · cases hw

theorem not_isBlank_of_number {c : Char} (h : c = '-' ∨ c.isDigit = true) :
    isBlank c = false ∧ c ≠ ']' := by
  have hne (d : Char) (hd : d ≠ '-' ∧ d.isDigit = false) : c ≠ d := by
    rintro rfl
    exact h.elim hd.1 (by simp [hd.2])
  refine ⟨?_, hne _ (by decide)⟩
  simp [isBlank, hne ' ' (by decide), hne '\n' (by decide), hne '\t' (by decide),
    hne '\r' (by decide)]

/-- What a value begins with. -/
theorem exists_print_eq_cons {v : Json} (h : IsSpelled v) :
    ∃ c cs, print v = c :: cs ∧ isBlank c = false ∧ c ≠ ']' := by
  cases v with
  | null => exact ⟨_, _, rfl, by decide, by decide⟩
  | bool b => cases b <;> exact ⟨_, _, rfl, by decide, by decide⟩
  | string s => exact ⟨_, _, rfl, by decide, by decide⟩
  | array items => exact ⟨_, _, rfl, by decide, by decide⟩
  | object members => exact ⟨_, _, rfl, by decide, by decide⟩
  | number literal =>
    obtain ⟨c, cs, hcs, hc⟩ := exists_eq_cons_of_readNumber h
    exact ⟨c, cs, hcs, not_isBlank_of_number hc⟩

theorem skipBlank_cons {c : Char} {cs : List Char} (h : isBlank c = false) :
    skipBlank (c :: cs) = c :: cs := by
  rw [skipBlank, List.dropWhile_cons, h]
  rfl

theorem readWord_self (word tail : List Char) : readWord word (word ++ tail) = .ok tail := by
  induction word with
  | nil => rfl
  | cons w word ih => rw [List.cons_append, readWord, if_pos rfl, ih]

theorem endsNumber_cons {c : Char} {cs : List Char}
    (h : c.isDigit = false ∧ c ≠ '.' ∧ c ≠ 'e' ∧ c ≠ 'E') : EndsNumber (c :: cs) := by
  intro d hd
  obtain rfl : c = d := by simpa using hd
  exact h

/-- Behind an item stands a comma or the end of the list. -/
theorem endsNumber_itemsText (rest : List Json) (tail : List Char) :
    EndsNumber (itemsText false rest ++ ']' :: tail) := by
  cases rest with
  | nil => exact endsNumber_cons (by decide)
  | cons v rest => exact endsNumber_cons (by decide)

theorem endsNumber_membersText (rest : List (String × Json)) (tail : List Char) :
    EndsNumber (membersText false rest ++ '}' :: tail) := by
  cases rest with
  | nil => exact endsNumber_cons (by decide)
  | cons m rest => exact endsNumber_cons (by decide)

theorem next_itemsText {v : Json} (h : IsSpelled v) (first : Bool) (rest : List Json)
    (tail : List Char) :
    Next ']' first (itemsText first (v :: rest) ++ tail)
      (print v ++ (itemsText false rest ++ tail)) := by
  obtain ⟨c, cs, hv, hb, hc⟩ := exists_print_eq_cons h
  have hstart : printItems (v :: rest) ++ tail = c :: (cs ++ (itemsText false rest ++ tail)) := by
    rw [printItems_cons, hv, List.append_assoc, List.cons_append]
  rw [hv, List.cons_append]
  cases first with
  | true =>
    rw [itemsText, hstart]
    exact .first (skipBlank_cons hb) hc
  | false =>
    rw [itemsText, List.cons_append, hstart]
    exact .other (skipBlank_cons (by decide)) (skipBlank_cons hb) hc

theorem next_membersText (k : String) (v : Json) (first : Bool) (rest : List (String × Json))
    (tail : List Char) :
    Next '}' first (membersText first ((k, v) :: rest) ++ tail)
      (printString k ++ ':' :: (print v ++ (membersText false rest ++ tail))) := by
  have hstart : printMembers ((k, v) :: rest) ++ tail =
      printString k ++ ':' :: (print v ++ (membersText false rest ++ tail)) := by
    rw [printMembers_cons]
    simp only [List.append_assoc, List.cons_append]
  rw [← hstart]
  obtain ⟨cs, hcs⟩ : ∃ cs, printMembers ((k, v) :: rest) ++ tail = '"' :: cs :=
    ⟨_, by rw [hstart, printString_append]⟩
  cases first with
  | true =>
    rw [membersText, hcs]
    exact .first (skipBlank_cons (by decide)) (by decide)
  | false =>
    rw [membersText, List.cons_append, hcs]
    exact .other (skipBlank_cons (by decide)) (skipBlank_cons (by decide)) (by decide)

theorem length_print_pos {v : Json} (h : IsSpelled v) : 0 < (print v).length := by
  obtain ⟨c, cs, hv, -⟩ := exists_print_eq_cons h
  simp [hv]

/-- Three steps for each character are enough to read back what was printed. -/
structure ReadsBack (fuel : Nat) : Prop where
  value {v : Json} {depth : Nat} {tail : List Char} (hv : IsSpelled v)
    (hf : 3 * (print v).length ≤ fuel) (hd : nesting v ≤ depth) (ht : EndsNumber tail) :
    readValue .full fuel depth (print v ++ tail) = .ok (v, tail)
  items {items : List Json} {depth : Nat} {tail : List Char} (first : Bool)
    (hi : ItemsSpelled items) (hf : 3 * (itemsText first items).length < fuel)
    (hd : nestingOfItems items ≤ depth) :
    readItems .full fuel depth first (itemsText first items ++ ']' :: tail) = .ok (items, tail)
  members {members : List (String × Json)} {depth : Nat} {tail : List Char} (first : Bool)
    (hm : MembersSpelled members) (hf : 3 * (membersText first members).length < fuel)
    (hd : nestingOfMembers members ≤ depth) :
    readMembers .full fuel depth first (membersText first members ++ '}' :: tail) =
      .ok (members, tail)
  member {k : String} {v : Json} {rest : List (String × Json)} {depth : Nat} {tail : List Char}
    (hv : IsSpelled v) (hm : MembersSpelled rest)
    (hf : 3 * (printMembers ((k, v) :: rest)).length ≤ fuel)
    (hd : nesting v ≤ depth) (hd' : nestingOfMembers rest ≤ depth) :
    readMember .full fuel depth
        (printString k ++ ':' :: (print v ++ (membersText false rest ++ '}' :: tail))) =
      .ok ((k, v) :: rest, tail)

/-- One step of a value. -/
theorem ReadsBack.readsValue {fuel depth : Nat} {v : Json} {tail : List Char}
    (ih : ReadsBack fuel) (hv : IsSpelled v) (hf : 3 * (print v).length ≤ fuel + 1)
    (hd : nesting v ≤ depth) (ht : EndsNumber tail) :
    ∃ c cs, skipBlank (print v ++ tail) = c :: cs ∧ ReadsValue .full fuel depth c cs v tail := by
  cases v with
  | null => exact ⟨'n', ['u', 'l', 'l'] ++ tail, rfl, .null (readWord_self _ tail)⟩
  | bool b =>
    cases b with
    | true => exact ⟨'t', ['r', 'u', 'e'] ++ tail, rfl, .yes (readWord_self _ tail)⟩
    | false => exact ⟨'f', ['a', 'l', 's', 'e'] ++ tail, rfl, .no (readWord_self _ tail)⟩
  | number literal =>
    obtain ⟨c, cs, rfl, hc⟩ := exists_eq_cons_of_readNumber hv
    exact ⟨c, cs ++ tail, skipBlank_cons (not_isBlank_of_number hc).1,
      .number hc (readNumber_append ht (List.cons_ne_nil _ _) hv)⟩
  | string s =>
    have hread : ReadsValue .full fuel depth '"' (s.toList.flatMap escape ++ '"' :: tail)
        (.string (String.ofList s.toList)) tail := .string (readString_flatMap_escape _ _)
    rw [String.ofList_toList] at hread
    rw [print, printString_append]
    exact ⟨_, _, skipBlank_cons (by decide), hread⟩
  | array items =>
    rw [print, List.length_cons, List.length_append] at hf
    rw [nesting] at hd
    refine ⟨'[', printItems items ++ ']' :: tail, ?_, .array (fun _ => by omega) ?_⟩
    · rw [print, List.cons_append, List.append_assoc]
      exact skipBlank_cons (by decide)
    · exact ih.items true hv (by rw [itemsText]; omega) (by omega)
  | object members =>
    rw [print, List.length_cons, List.length_append] at hf
    rw [nesting] at hd
    refine ⟨'{', printMembers members ++ '}' :: tail, ?_, .object (fun _ => by omega) ?_⟩
    · rw [print, List.cons_append, List.append_assoc]
      exact skipBlank_cons (by decide)
    · exact ih.members true hv (by rw [membersText]; omega) (by omega)

theorem readsBack (fuel : Nat) : ReadsBack fuel := by
  induction fuel with
  | zero =>
    constructor
    · intro v depth tail hv hf
      have hpos := length_print_pos hv
      omega
    · intros
      omega
    · intros
      omega
    · intro k v rest depth tail hv hm hf
      simp [printMembers_cons] at hf
  | succ fuel ih =>
    constructor
    · intro v depth tail hv hf hd ht
      exact readValue_eq_ok_iff.mpr (ih.readsValue hv hf hd ht)
    · intro items depth tail first hi hf hd
      refine readItems_eq_ok_iff.mpr ?_
      cases items with
      | nil =>
        refine Or.inl ⟨?_, rfl⟩
        cases first <;> exact skipBlank_cons (by decide)
      | cons v rest =>
        obtain ⟨hdv, hdr⟩ := Nat.max_le.mp hd
        have hpos := length_print_pos hi.1
        have hprint : (printItems (v :: rest)).length =
            (print v).length + (itemsText false rest).length := by
          rw [printItems_cons, List.length_append]
        have hlen : (printItems (v :: rest)).length ≤ (itemsText first (v :: rest)).length := by
          cases first <;> simp [itemsText]
        have hv : readValue .full fuel depth (print v ++ (itemsText false rest ++ ']' :: tail)) =
            .ok (v, itemsText false rest ++ ']' :: tail) :=
          ih.value hi.1 (by omega) hdv (endsNumber_itemsText rest tail)
        have hr : readItems .full fuel depth false (itemsText false rest ++ ']' :: tail) =
            .ok (rest, tail) := ih.items false hi.2 (by omega) hdr
        exact Or.inr ⟨_, v, _, rest, next_itemsText hi.1 first rest _, hv, hr, rfl⟩
    · intro members depth tail first hm hf hd
      refine readMembers_eq_ok_iff.mpr ?_
      cases members with
      | nil =>
        refine Or.inl ⟨?_, rfl⟩
        cases first <;> exact skipBlank_cons (by decide)
      | cons m rest =>
        obtain ⟨k, v⟩ := m
        obtain ⟨hdv, hdr⟩ := Nat.max_le.mp hd
        have hlen : (printMembers ((k, v) :: rest)).length ≤
            (membersText first ((k, v) :: rest)).length := by
          cases first <;> simp [membersText]
        refine Or.inr ⟨_, next_membersText k v first rest _, ?_⟩
        exact ih.member hm.1 hm.2 (by omega) hdv hdr
    · intro k v rest depth tail hv hm hf hd hd'
      have hpos := length_print_pos hv
      have hlen : (print v).length + (membersText false rest).length + 1 ≤
          (printMembers ((k, v) :: rest)).length := by
        simp only [printMembers_cons, List.length_append, List.length_cons]
        omega
      have hcolon : readColon (':' :: (print v ++ (membersText false rest ++ '}' :: tail))) =
          .ok (print v ++ (membersText false rest ++ '}' :: tail)) := rfl
      have hread : readValue .full fuel depth (print v ++ (membersText false rest ++ '}' :: tail)) =
          .ok (v, membersText false rest ++ '}' :: tail) :=
        ih.value hv (by omega) hd (endsNumber_membersText rest tail)
      have hr : readMembers .full fuel depth false (membersText false rest ++ '}' :: tail) =
          .ok (rest, tail) := ih.members false hm (by omega) hd'
      exact readMember_eq_ok_iff.mpr ⟨k.toList, _, _, v, _, rest, readKey_printString k _, hcolon,
        hread, hr, by rw [String.ofList_toList]⟩

structure Fits (depth : Nat) (v : Json) : Prop where
  isSpelled : IsSpelled v
  nesting_le : nesting v ≤ depth

theorem itemsSpelled_iff {items : List Json} : ItemsSpelled items ↔ ∀ v ∈ items, IsSpelled v := by
  induction items with
  | nil => exact ⟨fun _ => nofun, fun _ => trivial⟩
  | cons v rest ih => rw [ItemsSpelled, ih, List.forall_mem_cons]

theorem membersSpelled_iff {members : List (String × Json)} :
    MembersSpelled members ↔ ∀ m ∈ members, IsSpelled m.2 := by
  induction members with
  | nil => exact ⟨fun _ => nofun, fun _ => trivial⟩
  | cons m rest ih => rw [MembersSpelled, ih, List.forall_mem_cons]

theorem fits_array {depth : Nat} {items : List Json} (h : ∀ v ∈ items, Fits depth v) :
    Fits (depth + 1) (.array items) where
  isSpelled := itemsSpelled_iff.mpr fun v hv => (h v hv).isSpelled
  nesting_le := Nat.succ_le_succ (nestingOfItems_le_iff.mpr fun v hv => (h v hv).nesting_le)

theorem fits_object {depth : Nat} {members : List (String × Json)}
    (h : ∀ m ∈ members, Fits depth m.2) : Fits (depth + 1) (.object members) where
  isSpelled := membersSpelled_iff.mpr fun m hm => (h m hm).isSpelled
  nesting_le := Nat.succ_le_succ (nestingOfMembers_le_iff.mpr fun m hm => (h m hm).nesting_le)

theorem fits_string (depth : Nat) (s : String) : Fits depth (.string s) :=
  ⟨trivial, Nat.zero_le _⟩

theorem fits_bool (depth : Nat) (b : Bool) : Fits depth (.bool b) :=
  ⟨trivial, Nat.zero_le _⟩

/-- The text of a value holds that value. -/
theorem holds_compact {v : Json} (h : Fits depthLimit v) : Holds v.compact v := by
  have hfuel : 3 * (print v).length ≤ fuelFor (print v) := by
    rw [fuelFor]
    omega
  have hread := (readsBack (fuelFor (print v))).value h.isSpelled hfuel h.nesting_le
    endsNumber_nil
  rw [List.append_nil] at hread
  refine ⟨[], ?_, rfl⟩
  rw [compact, String.toList_ofList]
  exact hread

end Monorepo.Json
