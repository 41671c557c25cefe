import Monorepo.Command.Arguments
import Monorepo.Proofs.Path.Component

/-! Command lines with one directory more. Wherever the option is put in, it is taken up once and
everything else is read as before. -/
namespace Monorepo.Command
variable {d : Path} {o later : Options} {t : Token} {ts pre post : List Token} {words : List Word}

def Token.IsDirectory (t : Token) : Prop := ∃ v, t = .option "cwd" v

theorem chars_ne_nil (ha : d.isAbsolute = true) : d.chars ≠ [] := by
  obtain ⟨cs, hcs⟩ := (Path.isAbsolute_iff d).mp ha
  rw [hcs]
  exact List.cons_ne_nil _ _

namespace Options

def inDirectory (o : Options) (d : Path) : Options := { o with directory := some d }

theorem add_directory (ha : d.isAbsolute = true) (ho : o.directory = none) :
    o.add (.option "cwd" d.chars) = some (o.inDirectory d) := by
  have hne := chars_ne_nil ha
  simp only [add, path?, ho, hne, Option.isSome_none, Bool.false_eq_true, or_self, if_false]
  rfl

/-- No other option looks at the directory. -/
theorem add_inDirectory (ht : ¬ t.IsDirectory) :
    (o.inDirectory d).add t = (o.add t).map (·.inDirectory d) := by
  unfold add
  split
  · rfl
  · rfl
  · rw [apply_ite (Option.map _)]
    rfl
  · rw [apply_ite (Option.map _)]
    rfl
  · next v => exact absurd ⟨v, rfl⟩ ht
  · rw [Option.map_map]
    rfl
  · rw [Option.map_map]
    rfl
  · rw [apply_ite (Option.map _), Option.map_map]
    rfl
  · rfl

theorem directory_of_add {o' : Options} (ht : ¬ t.IsDirectory) (h : o.add t = some o') :
    o'.directory = o.directory := by
  unfold add at h
  split at h
  · cases h
    rfl
  · cases h
    rfl
  · split_ifs at h
    cases h
    rfl
  · split_ifs at h
    cases h
    rfl
  · next v => exact absurd ⟨v, rfl⟩ ht
  · obtain ⟨p, -, rfl⟩ := Option.map_eq_some_iff.mp h
    rfl
  · obtain ⟨p, -, rfl⟩ := Option.map_eq_some_iff.mp h
    rfl
  · split_ifs at h
    obtain ⟨m, -, rfl⟩ := Option.map_eq_some_iff.mp h
    rfl
  · cases h

theorem inDirectory_followedBy (h : later.directory = none) :
    (o.inDirectory d).followedBy later = (o.followedBy later).inDirectory d := by
  simp [followedBy, inDirectory, h]

end Options

def LeavesDirectory (ts : List Token) : Prop := ∀ t ∈ ts, ¬ t.IsDirectory

theorem LeavesDirectory.head (h : LeavesDirectory (t :: ts)) : ¬ t.IsDirectory :=
  h t List.mem_cons_self

theorem LeavesDirectory.tail (h : LeavesDirectory (t :: ts)) : LeavesDirectory ts :=
  fun u hu => h u (List.mem_cons_of_mem t hu)

def Token.word? : Token → Option Word
  | .word w | .operand w => some w
  | _ => none

theorem readRest_cons (o : Options) (words : List Word) (t : Token) (ts : List Token) :
    readRest o words (t :: ts) = match t.word? with
      | some w => readRest o (words ++ [w]) ts
      | none => (o.add t).bind fun o => readRest o words ts := by
  cases t <;> rfl

theorem readRest_inDirectory (h : LeavesDirectory ts) :
    readRest (o.inDirectory d) words ts =
      (readRest o words ts).map fun (o, words) => (o.inDirectory d, words) := by
  induction ts generalizing o words with
  | nil => rfl
  | cons t ts ih =>
    rw [readRest_cons, readRest_cons]
    cases t.word? with
    | some w => exact ih h.tail
    | none =>
      dsimp only
      rw [Options.add_inDirectory h.head]
      cases o.add t with
      | none => rfl
      | some o => exact ih h.tail

theorem directory_of_readRest {o' : Options} {words' : List Word} (h : LeavesDirectory ts)
    (hread : readRest o words ts = some (o', words')) : o'.directory = o.directory := by
  induction ts generalizing o words with
  | nil =>
    cases hread
    rfl
  | cons t ts ih =>
    rw [readRest_cons] at hread
    cases hw : t.word? with
    | some w =>
      rw [hw] at hread
      exact ih h.tail hread
    | none =>
      rw [hw] at hread
      obtain ⟨o₁, ho, hread⟩ := Option.bind_eq_some_iff.mp hread
      rw [ih h.tail hread, Options.directory_of_add h.head ho]

/-- The directory may stand anywhere behind the command. -/
theorem readRest_insert (ha : d.isAbsolute = true) (ho : o.directory = none)
    (h : LeavesDirectory (pre ++ post)) :
    readRest o words (pre ++ .option "cwd" d.chars :: post) =
      (readRest o words (pre ++ post)).map fun (o, words) => (o.inDirectory d, words) := by
  induction pre generalizing o words with
  | nil =>
    change ((o.add (.option "cwd" d.chars)).bind fun o => readRest o words post) = _
    rw [Options.add_directory ha ho]
    exact readRest_inDirectory h
  | cons t pre ih =>
    rw [List.cons_append, List.cons_append, readRest_cons, readRest_cons]
    cases t.word? with
    | some w => exact ih ho h.tail
    | none =>
      cases hadd : o.add t with
      | none => rfl
      | some o₁ => exact ih ((Options.directory_of_add h.head hadd).trans ho) h.tail

def Request.inDirectory (d : Path) : Request → Request
  | showVersion => showVersion
  | perform o t => perform (o.inDirectory d) t

/-- What a token does before the command: it is one, or it ends everything, or it is taken up. -/
theorem readFront_cases (t : Token) :
    (∃ command, t = .word command) ∨
    (∀ o ts, readFront o (t :: ts) = some .showVersion) ∨
    ∀ o ts, readFront o (t :: ts) =
      (o.add t).bind fun o => if o.isSpecial then none else readFront o ts := by
  cases t with
  | word w => exact Or.inl ⟨w, rfl⟩
  | flag name =>
    by_cases hname : name = "version"
    · subst hname
      exact Or.inr (Or.inl fun _ _ => rfl)
    · refine Or.inr (Or.inr fun o ts => ?_)
      rw [readFront]
      all_goals simp [hname]
  | short c =>
    by_cases hc : c = 'V'
    · subst hc
      exact Or.inr (Or.inl fun _ _ => rfl)
    · refine Or.inr (Or.inr fun o ts => ?_)
      rw [readFront]
      all_goals simp [hc]
  | option name value => exact Or.inr (Or.inr fun _ _ => rfl)
  | operand w => exact Or.inr (Or.inr fun _ _ => rfl)
  | broken => exact Or.inr (Or.inr fun _ _ => rfl)

def readCommand (o : Options) (command : Word) (rest : Option (Options × List Word)) :
    Option Request :=
  if o.isSpecial then none
  else rest.bind fun (later, words) =>
    (task? command later words).map fun task => .perform (o.followedBy later) task

theorem readFront_word (o : Options) (command : Word) (ts : List Token) :
    readFront o (.word command :: ts) = readCommand o command (readRest {} [] ts) := by
  rw [readFront, readCommand]
  split_ifs
  · rfl
  · cases readRest {} [] ts with
    | none => rfl
    | some read =>
      obtain ⟨later, words⟩ := read
      change (task? command later words >>= _) = Option.map _ (task? command later words)
      cases task? command later words <;> rfl

/-- Before the command, the directory is kept if there is none behind it. -/
theorem readCommand_inDirectory {rest : Option (Options × List Word)}
    (h : ∀ later words, rest = some (later, words) → later.directory = none) (command : Word) :
    readCommand (o.inDirectory d) command rest =
      (readCommand o command rest).map (·.inDirectory d) := by
  rw [readCommand, readCommand, apply_ite (Option.map _)]
  refine if_congr Iff.rfl rfl ?_
  cases rest with
  | none => rfl
  | some read =>
    obtain ⟨later, words⟩ := read
    change Option.map _ _ = Option.map _ (Option.map _ _)
    rw [Option.map_map, Options.inDirectory_followedBy (h later words rfl)]
    rfl

theorem readCommand_map_inDirectory (o : Options) (command : Word)
    (rest : Option (Options × List Word)) :
    readCommand o command (rest.map fun (later, words) => (later.inDirectory d, words)) =
      (readCommand o command rest).map (·.inDirectory d) := by
  rw [readCommand, readCommand, apply_ite (Option.map _)]
  refine if_congr Iff.rfl rfl ?_
  cases rest with
  | none => rfl
  | some read =>
    obtain ⟨later, words⟩ := read
    change Option.map _ _ = Option.map _ (Option.map _ _)
    rw [Option.map_map]
    rfl

theorem readFront_inDirectory (h : LeavesDirectory ts) :
    readFront (o.inDirectory d) ts = (readFront o ts).map (·.inDirectory d) := by
  induction ts generalizing o with
  | nil =>
    rw [readFront, readFront, apply_ite (Option.map _)]
    rfl
  | cons t ts ih =>
    obtain ⟨command, rfl⟩ | hversion | hadd := readFront_cases t
    · rw [readFront_word, readFront_word]
      exact readCommand_inDirectory (fun later words hread => directory_of_readRest h.tail hread) _
    · rw [hversion, hversion]
      rfl
    · rw [hadd, hadd, Options.add_inDirectory h.head]
      cases o.add t with
      | none => rfl
      | some o₁ =>
        change (if o₁.isSpecial then none else _) = Option.map _ (if o₁.isSpecial then none else _)
        rw [ih h.tail, apply_ite (Option.map _)]
        rfl

/-- The directory may stand anywhere. -/
theorem readFront_insert (ha : d.isAbsolute = true) (ho : o.directory = none)
    (hs : o.isSpecial = false) (h : LeavesDirectory (pre ++ post)) :
    readFront o (pre ++ .option "cwd" d.chars :: post) =
      (readFront o (pre ++ post)).map (·.inDirectory d) := by
  induction pre generalizing o with
  | nil =>
    change ((o.add (.option "cwd" d.chars)).bind fun o => if o.isSpecial then none else
      readFront o post) = _
    rw [Options.add_directory ha ho]
    change (if o.isSpecial then none else _) = _
    rw [hs]
    exact readFront_inDirectory h
  | cons t pre ih =>
    rw [List.cons_append, List.cons_append]
    obtain ⟨command, rfl⟩ | hversion | hadd := readFront_cases t
    · rw [readFront_word, readFront_word, readRest_insert ha rfl h.tail]
      exact readCommand_map_inDirectory o command _
    · rw [hversion, hversion]
      rfl
    · rw [hadd, hadd]
      cases ho₁ : o.add t with
      | none => rfl
      | some o₁ =>
        have hdirectory := (Options.directory_of_add h.head ho₁).trans ho
        cases hs₁ : o₁.isSpecial with
        | true => simp [hs₁]
        | false => simpa [hs₁] using ih hdirectory hs₁ h.tail

theorem directory_of_readFront {later : Options} {task : Task} (h : LeavesDirectory ts)
    (hread : readFront o ts = some (.perform later task)) : later.directory = o.directory := by
  induction ts generalizing o with
  | nil =>
    rw [readFront] at hread
    split_ifs at hread
    cases hread
    rfl
  | cons t ts ih =>
    obtain ⟨command, rfl⟩ | hversion | hadd := readFront_cases t
    · rw [readFront_word, readCommand] at hread
      split_ifs at hread
      obtain ⟨⟨behind, words⟩, hrest, hread⟩ := Option.bind_eq_some_iff.mp hread
      obtain ⟨task, -, hread⟩ := Option.map_eq_some_iff.mp hread
      cases hread
      have hnone : behind.directory = none := directory_of_readRest h.tail hrest
      simp [Options.followedBy, hnone]
    · rw [hversion] at hread
      cases hread
    · rw [hadd] at hread
      obtain ⟨o₁, ho₁, hread⟩ := Option.bind_eq_some_iff.mp hread
      split_ifs at hread
      rw [ih h.tail hread, Options.directory_of_add h.head ho₁]

/-- Words behind which the next one is read afresh: no option waits for a value, and nothing has
been said to be no option. -/
def IsComplete (front : List Word) : Prop :=
  ∀ back, tokens (front ++ back) = tokens front ++ tokens back

theorem isComplete_singleton {w : Word} (ht : ∀ back, tokens (w :: back) = t :: tokens back) :
    IsComplete [w] := by
  intro back
  rw [List.singleton_append, ht back, ht []]
  rfl

def directoryWords (d : Path) : List (List Word) :=
  [[Utf8.ofString "--cwd", d.chars], [Utf8.ofString "--cwd=" ++ d.chars]]

theorem looksLikeOption_chars (ha : d.isAbsolute = true) : looksLikeOption d.chars = false := by
  obtain ⟨cs, hcs⟩ := (Path.isAbsolute_iff d).mp ha
  rw [hcs]
  rfl

theorem tokens_spaced (value : Word) (back : List Word) :
    tokens (Utf8.ofString "--cwd" :: value :: back) =
      if looksLikeOption value then [.broken] else .option "cwd" value :: tokens back := rfl

theorem tokens_joined (value : Word) (back : List Word) :
    tokens ((Utf8.ofString "--cwd=" ++ value) :: back) = .option "cwd" value :: tokens back := rfl

theorem tokens_directoryWords {option : List Word} (ha : d.isAbsolute = true)
    (hoption : option ∈ directoryWords d) (back : List Word) :
    tokens (option ++ back) = .option "cwd" d.chars :: tokens back := by
  obtain rfl | hoption := List.mem_cons.mp hoption
  · change tokens (Utf8.ofString "--cwd" :: d.chars :: back) = _
    rw [tokens_spaced, looksLikeOption_chars ha]
    rfl
  · obtain rfl := List.mem_singleton.mp hoption
    exact tokens_joined d.chars back

theorem parse_insert {front back option : List Word} (ha : d.isAbsolute = true)
    (hfront : IsComplete front) (hoption : option ∈ directoryWords d)
    (h : LeavesDirectory (tokens (front ++ back))) :
    parse (front ++ (option ++ back)) = (parse (front ++ back)).map (·.inDirectory d) := by
  rw [hfront back] at h
  rw [parse, parse, hfront, hfront, tokens_directoryWords ha hoption]
  exact readFront_insert ha rfl rfl h

theorem directory_of_parse {args : List Word} {task : Task} (h : LeavesDirectory (tokens args))
    (hparse : parse args = some (.perform o task)) : o.directory = none :=
  directory_of_readFront h hparse

end Monorepo.Command
