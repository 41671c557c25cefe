import Monorepo.Proofs.Path.Normal
import Monorepo.Proofs.Text.Utf8

/-! Paths as they are shown. What is shown for bytes at fault is neither a slash nor a dot, so a
path and what is shown of it lead the same way, and only the names with such bytes are others. -/
namespace Monorepo
namespace Utf8

def Symbol.lossy (s : Symbol) : Symbol := .char s.shown

theorem map_lossy_eq_iff {s : List Symbol} (cs : List Char) (h : '\uFFFD' ∉ cs) :
    s.map Symbol.lossy = cs.map .char ↔ s = cs.map .char := by
  induction cs generalizing s with
  | nil => simp
  | cons c cs ih =>
    obtain ⟨hc, hcs⟩ := not_or.mp (mt List.mem_cons.mpr h)
    cases s with
    | nil => simp
    | cons d s =>
      have hd : d.lossy = .char c ↔ d = .char c := by
        cases d <;> simp [Symbol.lossy, Symbol.shown, hc]
      rw [List.map_cons, List.map_cons, List.cons.injEq, List.cons.injEq, ih hcs, hd]

theorem lossy_eq_slash_iff (s : Symbol) : s.lossy = slash ↔ s = slash := by
  cases s <;> simp [Symbol.lossy, Symbol.shown]

end Utf8

open Utf8 (Symbol)

theorem segments_map_lossy (cs : List Symbol) :
    segments (cs.map Symbol.lossy) = (segments cs).map (List.map Symbol.lossy) := by
  induction cs with
  | nil => rfl
  | cons c cs ih =>
    obtain ⟨s, rest, hs⟩ := List.exists_cons_of_ne_nil (segments_ne_nil cs)
    rw [List.map_cons, segments, segments, ih, hs]
    simp only [Utf8.lossy_eq_slash_iff]
    split_ifs <;> rfl

namespace Component

def lossy : Component → Component
  | name s => name (s.map Symbol.lossy)
  | c => c

theorem chars_lossy (c : Component) : c.lossy.chars = c.chars.map Symbol.lossy := by
  cases c <;> rfl

theorem ofSegment?_map_lossy (s : Segment) :
    ofSegment? (s.map Symbol.lossy) = (ofSegment? s).map lossy := by
  have hnil : s.map Symbol.lossy = [] ↔ s = [] := List.map_eq_nil_iff
  have hdot : s.map Symbol.lossy = [dot] ↔ s = [dot] :=
    Utf8.map_lossy_eq_iff ['.'] (by decide)
  have hdots : s.map Symbol.lossy = [dot, dot] ↔ s = [dot, dot] :=
    Utf8.map_lossy_eq_iff ['.', '.'] (by decide)
  unfold ofSegment?
  simp only [hnil, hdot, hdots]
  split_ifs <;> rfl

theorem isName_map_lossy {s : Segment} (h : IsName s) : IsName (s.map Symbol.lossy) := by
  refine ⟨mt List.map_eq_nil_iff.mp h.1, mt (Utf8.map_lossy_eq_iff ['.'] (by decide)).mp h.2.1,
    mt (Utf8.map_lossy_eq_iff ['.', '.'] (by decide)).mp h.2.2.1, ?_⟩
  intro hm
  obtain ⟨c, hc, hslash⟩ := List.mem_map.mp hm
  exact h.2.2.2 ((Utf8.lossy_eq_slash_iff c).mp hslash ▸ hc)

theorem trail_map_lossy (t : List Component) (c : Component) :
    trail (t.map lossy) c.lossy = (trail t c).map lossy := by
  cases c with
  | parent => cases t with
    | nil => rfl
    | cons d t => cases d <;> rfl
  | _ => cases t with
    | nil => rfl
    | cons d t => cases d <;> rfl

theorem simplify_map_lossy (cs : List Component) :
    simplify (cs.map lossy) = (simplify cs).map lossy := by
  induction cs using List.reverseRecOn with
  | nil => rfl
  | append_singleton cs c ih =>
    rw [List.map_append, List.map_singleton, simplify_append_singleton, ih, ← List.map_reverse,
      trail_map_lossy, simplify_append_singleton, List.map_reverse]

end Component

namespace Path
open Component
variable {p q : Path}

theorem chars_lossy (p : Path) : p.lossy.chars = p.chars.map Symbol.lossy :=
  List.map_map

theorem ofChars_append (a b : List Char) :
    ofChars (a ++ b) = ⟨(ofChars a).chars ++ (ofChars b).chars⟩ := congrArg mk List.map_append

theorem ofString_append (a b : String) :
    ofString (a ++ b) = ⟨(ofString a).chars ++ (ofString b).chars⟩ := by
  rw [ofString, Utf8.ofString, String.toList_append]
  exact ofChars_append _ _

theorem ofString_ofList (cs : List Char) : ofString (String.ofList cs) = ofChars cs := by
  rw [ofString, Utf8.ofString, String.toList_ofList]
  rfl

theorem shown_ofChars (cs : List Char) : (ofChars cs).shown = cs := Utf8.shown_map_char cs

theorem lossy_ofChars (cs : List Char) : (ofChars cs).lossy = ofChars cs := by
  rw [lossy, shown_ofChars]

theorem lossy_lossy (p : Path) : p.lossy.lossy = p.lossy := lossy_ofChars _

theorem ofChars_injective : Function.Injective ofChars := fun _ _ h =>
  Utf8.map_char_injective (congrArg chars h)

theorem getLast?_shown_iff (p : Path) :
    p.shown.getLast? = some '/' ↔ p.chars.getLast? = some slash := by
  rw [shown, Utf8.shown, List.getLast?_map]
  cases p.chars.getLast? with
  | none => simp
  | some c => cases c <;> simp [Symbol.shown]

theorem ofString_text (p : Path) : ofString p.text = p.lossy := ofString_ofList _

@[simp] theorem text_ofString (s : String) : (ofString s).text = s := by
  rw [text, show (ofString s).shown = s.toList from shown_ofChars _, String.ofList_toList]

theorem isAbsolute_lossy (p : Path) : p.lossy.isAbsolute = p.isAbsolute := by
  rw [isAbsolute, isAbsolute, chars_lossy, List.head?_map]
  cases p.chars.head? with
  | none => rfl
  | some c =>
    rw [Option.map_some, Bool.eq_iff_iff, beq_iff_eq, beq_iff_eq, Option.some_inj, Option.some_inj]
    exact Utf8.lossy_eq_slash_iff c

theorem isEmpty_lossy (p : Path) : p.lossy.isEmpty = p.isEmpty := by
  rw [isEmpty, isEmpty, chars_lossy, List.isEmpty_map]

theorem steps_lossy (p : Path) : p.lossy.steps = p.steps.map Component.lossy := by
  rw [steps, chars_lossy, segments_map_lossy, List.filterMap_map, steps, List.map_filterMap]
  exact congrArg (List.filterMap · _) (funext ofSegment?_map_lossy)

theorem components_lossy (p : Path) : p.lossy.components = p.components.map Component.lossy := by
  have hhead : (segments p.lossy.chars).head? = some [dot] ↔
      (segments p.chars).head? = some [dot] := by
    rw [chars_lossy, segments_map_lossy, List.head?_map]
    cases (segments p.chars).head? with
    | none => rfl
    | some s =>
      rw [Option.map_some, Option.some_inj, Option.some_inj]
      exact Utf8.map_lossy_eq_iff ['.'] (by decide)
  rw [components_eq, components_eq, steps_lossy, List.map_append]
  congr 1
  unfold head
  rw [isAbsolute_lossy]
  simp only [hhead]
  split_ifs <;> rfl

theorem lossy_join (p q : Path) : (p.join q).lossy = p.lossy.join q.lossy := by
  have hlast : p.lossy.chars.getLast? = some slash ↔ p.chars.getLast? = some slash := by
    rw [chars_lossy, List.getLast?_map]
    cases p.chars.getLast? with
    | none => rfl
    | some c =>
      rw [Option.map_some, Option.some_inj, Option.some_inj]
      exact Utf8.lossy_eq_slash_iff c
  have happend (cs : List Symbol) :
      (mk (p.chars ++ cs)).lossy = ⟨p.lossy.chars ++ cs.map Symbol.lossy⟩ := by
    rw [chars_lossy p, ← List.map_append, ← chars_lossy ⟨p.chars ++ cs⟩]
  unfold join
  rw [isAbsolute_lossy, isEmpty_lossy]
  simp only [hlast]
  split_ifs
  · rfl
  · rw [happend, chars_lossy q]
  · rw [happend, chars_lossy q]
    rfl

theorem lossy_ofComponents (cs : List Component) :
    (ofComponents cs).lossy = ofComponents (cs.map Component.lossy) := by
  induction cs using List.reverseRecOn with
  | nil => rfl
  | append_singleton cs c ih =>
    rw [List.map_append, List.map_singleton, ofComponents_append_singleton,
      ofComponents_append_singleton, lossy_join, ih]
    exact congrArg (join _) (congrArg mk ((chars_lossy ⟨c.chars⟩).trans c.chars_lossy.symm))

/-- Detours may be taken out of a path or of what is shown of it. -/
theorem normalize_lossy (p : Path) : p.lossy.normalize = p.normalize.lossy := by
  rw [normalize, normalize, components_lossy, simplify_map_lossy, lossy_ofComponents]

theorem startsWithDot_lossy (p : Path) : p.lossy.startsWithDot = p.startsWithDot := by
  rw [startsWithDot, startsWithDot, components_lossy]
  cases p.components with
  | nil => rfl
  | cons c cs => cases c <;> rfl

theorem isWithin_lossy (h : p.isWithin q = true) : p.lossy.isWithin q.lossy = true := by
  rw [isWithin, List.isPrefixOf_iff_prefix] at h ⊢
  rw [components_lossy, components_lossy]
  exact h.map _

def IsText (p : Path) : Prop := p.lossy = p

instance : Decidable p.IsText := inferInstanceAs (Decidable (_ = _))

theorem isText_ofChars (cs : List Char) : (ofChars cs).IsText := lossy_ofChars cs

theorem text?_eq_some_iff {s : String} : p.text? = some s ↔ p = ofString s := by
  rw [← String.ofList_toList (s := s), text?, Utf8.text?_eq_some_iff, String.ofList_toList]
  cases p
  simp [ofString, Utf8.ofString]

theorem isText_iff : p.IsText ↔ p.text? = some p.text := by
  rw [text?_eq_some_iff, ofString_text]
  exact eq_comm

/-- Every path of a disk is one of these, with the bytes that it has there. -/
theorem bytes_ofBytes (bs : List UInt8) : (ofBytes bs).bytes = bs := Utf8.bytes_decode bs

theorem ofBytes_append_slash (as bs : List UInt8) :
    ofBytes (as ++ 0x2f :: bs) = ⟨(ofBytes as).chars ++ slash :: (ofBytes bs).chars⟩ := by
  have hslash : Utf8.decode (0x2f :: bs) = slash :: Utf8.decode bs :=
    Utf8.decode_encodeChar_append '/' bs
  rw [ofBytes, Utf8.decode_append (by decide), hslash]
  rfl

/-- Paths that are read from bytes are joined as their bytes are. -/
theorem ofBytes_bytes_join (hp : ofBytes p.bytes = p) (hq : ofBytes q.bytes = q) :
    ofBytes (p.join q).bytes = p.join q := by
  have happend (cs : List Symbol) (hcs : ofBytes (Utf8.bytes cs) = ⟨cs⟩) :
      ofBytes (mk (cs ++ slash :: q.chars)).bytes = ⟨cs ++ slash :: q.chars⟩ := by
    have hbytes : (mk (cs ++ slash :: q.chars)).bytes = Utf8.bytes cs ++ 0x2f :: q.bytes :=
      List.flatMap_append
    rw [hbytes, ofBytes_append_slash, hcs, hq]
  unfold join
  split_ifs with hend hlast
  · exact hq
  · obtain ⟨cs, hcs⟩ := List.getLast?_eq_some_iff.mp hlast
    have hbytes : p.bytes = Utf8.bytes cs ++ [0x2f] := by
      rw [bytes, hcs]
      exact List.flatMap_append
    have hempty : (ofBytes []).chars = [] := by rw [ofBytes, Utf8.decode]
    rw [hbytes, ofBytes_append_slash, hempty] at hp
    have hinit : ofBytes (Utf8.bytes cs) = ⟨cs⟩ :=
      congrArg mk (List.append_cancel_right ((congrArg chars hp).trans hcs))
    rw [hcs, List.append_assoc]
    exact happend cs hinit
  · exact happend p.chars hp

end Path
end Monorepo
