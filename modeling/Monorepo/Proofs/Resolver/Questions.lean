import Monorepo.Proofs.Resolver.Destination

/-! What is asked of a disk. A resolution asks for the real path of the importing file, and whether
there is something at one path for a specifier that names another package. It fails just if the
answer to one of these questions is a fault. -/
namespace Monorepo.Resolver

/-- To resolve `target` in the file `real`, it is asked whether there is something at `path`:
`target` is a module specifier, the first package that it names is not that of the file, and `path`
is where the rest of `target` leads from the root of that package. -/
def Asks (r : Resolver) (target : String) (real path : Path) : Prop :=
  r.specifierAt target real = .module ∧
  ∃ q n rest, r.packageNamed? target.toList = some (q, n, rest) ∧
    (¬ ∃ o, r.packageOf? real = some (o, n)) ∧
      path = (q.root.join (.ofChars (trimSlashes rest))).normalize

variable {r : Resolver} {probe : Probe} {log : Recorder} {target : String} {origin real path : Path}

theorem Asks.isAbsolute (h : r.Asks target real path)
    (hr : ∀ p ∈ r.packages, p.root.isAbsolute = true) : path.isAbsolute = true := by
  obtain ⟨-, q, n, rest, hn, -, rfl⟩ := h
  rw [Path.isAbsolute_normalize]
  exact Path.isAbsolute_join q.root _ (hr q (mem_of_packageNamed? hn))

theorem asks_iff_of_named {q : Package} {n : Nat} {rest : List Char}
    (hs : r.specifierAt target real = .module)
    (hn : r.packageNamed? target.toList = some (q, n, rest))
    (hother : ¬ ∃ o, r.packageOf? real = some (o, n)) :
    r.Asks target real path ↔ path = directCandidate q (trimSlashes rest) := by
  constructor
  · rintro ⟨-, q', n', rest', hfound, -, hpath⟩
    rw [hn] at hfound
    cases hfound
    exact hpath
  · exact fun hpath => ⟨hs, q, n, rest, hn, hother, hpath⟩

theorem realFile_eq_error_iff (e : ResolveError) :
    r.realFile origin = .error e ↔
      r.settings.resolveLinks = true ∧ e.path = origin.normalize ∧
        r.probe.realPath origin.normalize = .error e.fault := by
  obtain ⟨path, fault⟩ := e
  rw [realFile_eq]
  by_cases hl : r.settings.resolveLinks = true
  · rw [if_pos hl]
    cases r.probe.realPath origin.normalize with
    | error f => simp [hl, eq_comm]
    | ok real? => simp
  · rw [if_neg hl]
    simp [hl]

theorem destination?_eq_error_iff (e : ResolveError) :
    r.destination? target real = .error e ↔
      r.Asks target real e.path ∧ r.probe.present e.path = .error e.fault := by
  unfold Asks
  cases hs : r.specifierAt target real with
  | relative => simp [destination?, hs]
  | aliased p rest => simp [destination?, hs]
  | ownName p rest => simp [destination?, hs]
  | module =>
    cases hn : r.packageNamed? target.toList with
    | none => simp [destination?, modulePath?, hs, hn]
    | some found =>
      obtain ⟨q, n, rest⟩ := found
      by_cases hown : ∃ o, r.packageOf? real = some (o, n)
      · have hslot := (any_slot_eq_true_iff (r.packageOf? real) n).mpr hown
        have hnone : r.destination? target real = .ok none := by
          simp [destination?, modulePath?, hs, hn, hslot]
        rw [hnone]
        constructor
        · intro h
          cases h
        · rintro ⟨⟨-, q', n', rest', hfound, hother, -⟩, -⟩
          cases hfound
          exact absurd hown hother
      · rw [destination?_of_named hs hn hown]
        constructor
        · intro h
          split at h
          · next f hf =>
            cases h
            exact ⟨⟨rfl, q, n, rest, rfl, hown, rfl⟩, hf⟩
          · cases h
        · rintro ⟨⟨-, q', n', rest', hfound, -, hpath⟩, hp⟩
          cases hfound
          have hcandidate : e.path = directCandidate q (trimSlashes rest) := hpath
          rw [← hcandidate, hp]

/-- Whose file is known, a specifier fails just if what is asked about it has a fault for an
answer. -/
theorem resolve_eq_error_iff (hf : r.realFile origin = .ok real) (relative : Bool)
    (e : ResolveError) :
    r.resolve target origin relative = .error e ↔
      r.Asks target real e.path ∧ r.probe.present e.path = .error e.fault := by
  rw [← destination?_eq_error_iff]
  cases hd : r.destination? target real with
  | error d => simp [resolve_of_destination_error hf hd]
  | ok path? => simp [resolve_of_destination hf hd]

theorem realOrigin_congr
    (h : r.settings.resolveLinks = true →
      probe.realPath origin.normalize = r.probe.realPath origin.normalize) :
    realOrigin { r with probe } log origin = r.realOrigin log origin := by
  unfold realOrigin
  dsimp only
  by_cases hl : r.settings.resolveLinks = true
  · rw [if_neg (not_not_intro hl), if_neg (not_not_intro hl), h hl]
  · rw [if_pos hl, if_pos hl]

theorem pathFor_congr (h : ∀ path, r.Asks target real path →
      probe.present path = r.probe.present path) :
    pathFor { r with probe } log (r.packageOf? real) target (r.specifierAt target real) =
      r.pathFor log (r.packageOf? real) target (r.specifierAt target real) := by
  cases hs : r.specifierAt target real with
  | relative => rfl
  | aliased p rest => rfl
  | ownName p rest => rfl
  | module =>
    change intoModule _ log _ _ = intoModule r log _ _
    unfold intoModule
    rw [show packageNamed? { r with probe } target.toList = r.packageNamed? target.toList from rfl]
    cases hn : r.packageNamed? target.toList with
    | none => rfl
    | some found =>
      obtain ⟨q, n, rest⟩ := found
      dsimp only
      by_cases hslot : (r.packageOf? real).any (·.2 == n) = true
      · rw [if_pos hslot, if_pos hslot]
      · have hown := mt (any_slot_eq_true_iff (r.packageOf? real) n).mpr hslot
        have hcandidate : probe.present (directCandidate q (trimSlashes rest)) =
            r.probe.present (directCandidate q (trimSlashes rest)) :=
          h _ ⟨hs, q, n, rest, hn, hown, rfl⟩
        rw [if_neg hslot, if_neg hslot, hcandidate]
        rfl

/-- Probes that give the same answers to what is asked lead to the same decisions. -/
theorem run_congr
    (hreal : r.settings.resolveLinks = true →
      probe.realPath origin.normalize = r.probe.realPath origin.normalize)
    (hpresent : ∀ real path, r.realFile origin = .ok real → r.Asks target real path →
      probe.present path = r.probe.present path) (relative : Bool) :
    run { r with probe } log target origin relative = r.run log target origin relative := by
  unfold run
  rw [realOrigin_congr hreal]
  cases ho : r.realOrigin log origin with
  | error e => rfl
  | ok opened =>
    obtain ⟨real, opened⟩ := opened
    have hf : r.realFile origin = .ok real := by
      rw [← map_fst_realOrigin r log origin, ho]
      rfl
    change (pathFor { r with probe } log (r.packageOf? real) target
      (r.specifierAt target real) >>= _) =
      (r.pathFor log (r.packageOf? real) target (r.specifierAt target real) >>= _)
    rw [pathFor_congr fun path => hpresent real path hf]
    rfl

/-- A resolution fails just if the real path of its file cannot be had, or else if it asks about a
path and gets a fault for an answer; the error names what was asked about. What is at other paths
makes no difference, so that only specifiers that name a package depend on what is there at all. -/
theorem fails_iff_question_fails (r : Resolver) (target : String) (origin : Path)
    (relative : Bool) :
    (∀ e, r.resolve target origin relative = .error e ↔
      (r.settings.resolveLinks = true ∧ e.path = origin.normalize ∧
        r.probe.realPath origin.normalize = .error e.fault) ∨
      ∃ real, r.realFile origin = .ok real ∧ r.Asks target real e.path ∧
        r.probe.present e.path = .error e.fault) ∧
    (∀ present log, (∀ real path, r.realFile origin = .ok real → r.Asks target real path →
        present path = r.probe.present path) →
      run { r with probe := { r.probe with present } } log target origin relative =
        r.run log target origin relative) ∧
    ((∀ real, r.realFile origin = .ok real → r.specifierAt target real = .module →
        r.packageNamed? target.toList = none) →
      ∀ present log, run { r with probe := { r.probe with present } } log target origin relative =
        r.run log target origin relative) := by
  refine ⟨?_, ?_, ?_⟩
  · intro e
    rw [← realFile_eq_error_iff]
    cases hf : r.realFile origin with
    | error d => simp [resolve_of_realFile_error hf]
    | ok real => simp [resolve_eq_error_iff hf]
  · intro present log h
    refine run_congr ?_ h relative
    exact fun _ => rfl
  · intro h present log
    refine run_congr ?_ (fun real path hf hasks => ?_) relative
    · exact fun _ => rfl
    · obtain ⟨hs, q, n, rest, hn, -⟩ := hasks
      rw [h real hf hs] at hn
      cases hn

def timedOut : FileSystem.Fault := .refused "timed out"

def slow : Resolver where
  settings := {}
  packages := [⟨some "a", .ofString "/r/a", "src", none, "src", "~"⟩,
    ⟨some "b", .ofString "/r/b", "src", none, "src", "~"⟩]
  probe :=
    { realPath := fun p => if p = .ofString "/n/f.js" then .error timedOut else .ok none
      present := fun p => if p.isWithin (.ofString "/r/b") then .error timedOut else .ok false }

theorem fails_iff_question_fails_slow :
    slow.resolve "./x" (.ofString "/r/../n/f.js") true = .error ⟨.ofString "/n/f.js", timedOut⟩ ∧
    slow.resolve "b//x/" (.ofString "/r/a/f.js") true = .error ⟨.ofString "/r/b/x", timedOut⟩ ∧
    (∀ log, run { slow with probe := { slow.probe with
        present := fun p => if p = .ofString "/r/b/x" then .error timedOut else .ok true } }
      log "b//x/" (.ofString "/r/a/f.js") true =
        slow.run log "b//x/" (.ofString "/r/a/f.js") true) ∧
    ∀ present log, run { slow with probe := { slow.probe with present } }
      log "~/x" (.ofString "/r/a/f.js") true = slow.run log "~/x" (.ofString "/r/a/f.js") true := by
  have hf : slow.realFile (.ofString "/r/a/f.js") = .ok (.ofString "/r/a/f.js") := by decide
  have hs : slow.specifierAt "b//x/" (.ofString "/r/a/f.js") = .module := rfl
  have hn : slow.packageNamed? "b//x/".toList =
      some (⟨some "b", .ofString "/r/b", "src", none, "src", "~"⟩, 1, "//x/".toList) := by decide
  have hown : slow.packageOf? (.ofString "/r/a/f.js") =
      some (⟨some "a", .ofString "/r/a", "src", none, "src", "~"⟩, 0) := by decide
  have hother : ¬ ∃ o, slow.packageOf? (.ofString "/r/a/f.js") = some (o, 1) := by
    rw [hown]
    simp
  have hasks (path : Path) : slow.Asks "b//x/" (.ofString "/r/a/f.js") path ↔
      path = .ofString "/r/b/x" := by
    rw [asks_iff_of_named hs hn hother]
    exact iff_of_eq (congrArg (path = ·) (by decide))
  refine ⟨?_, ?_, ?_, ?_⟩
  · refine ((fails_iff_question_fails slow "./x" (.ofString "/r/../n/f.js") true).1 _).mpr
      (Or.inl ?_)
    decide
  · refine ((fails_iff_question_fails slow "b//x/" (.ofString "/r/a/f.js") true).1 _).mpr
      (Or.inr ?_)
    exact ⟨_, hf, (hasks _).mpr rfl, rfl⟩
  · intro log
    refine (fails_iff_question_fails slow "b//x/" (.ofString "/r/a/f.js") true).2.1 _ log ?_
    intro real path hreal hpath
    obtain rfl : .ofString "/r/a/f.js" = real := Except.ok.inj (hf.symm.trans hreal)
    obtain rfl := (hasks path).mp hpath
    rfl
  · intro present log
    refine (fails_iff_question_fails slow "~/x" (.ofString "/r/a/f.js") true).2.2 ?_ present log
    intro real hreal hmodule
    obtain rfl : .ofString "/r/a/f.js" = real := Except.ok.inj (hf.symm.trans hreal)
    cases hmodule

end Monorepo.Resolver
