import SealedSky.Backend.Server
import SealedSky.Lib.Words

/-!
# Labels of published records (`backend/server.js:121-128`)

`sanitizeEnsLabel` brings any text into words of `a`..`z` and `0`..`9` with one hyphen between them, and
then cuts it off at 63 characters, also right behind a hyphen.

* `hyphenate_eq` — the replacements give the words of the lowercase text.
* `sanitizeEnsLabel_iff` — exactly when the label is a valid one that is sanitised to itself.
-/
namespace SealedSky.Backend

open Js Words

/-- `s.toLowerCase()`. Of the characters outside ASCII only the Kelvin sign and the dotted capital I
give one inside. The others are left as they are here. -/
def toLowerCase (s : JsString) : JsString :=
  s.flatMap fun u => if u = 0x212A then [107] else if u = 0x130 then [105, 0x307] else [lowerUnit u]

/-- The characters of a label. A hyphen is its own mark. -/
def labels : Alphabet UInt16 where
  letter u := decide (97 ≤ u.toNat ∧ u.toNat ≤ 122 ∨ 48 ≤ u.toNat ∧ u.toNat ≤ 57)
  sep := 45
  sep_letter := by decide

/-- The three replacements (server.js:124): what is no character of a label, runs of hyphens, and a
hyphen at either end. -/
def hyphenate (s : JsString) : JsString := labels.strip (labels.squeeze (labels.mark s))

/-- `String(raw || "")`, `none` where it throws. -/
def labelText (raw : JsValue) : Option JsString := if truthy raw then raw.toText else some []

/-- server.js:121. -/
def sanitizeEnsLabel (raw : JsValue) : Option JsString :=
  (labelText raw).map fun text =>
    let s := hyphenate (toLowerCase text)
    (if s = [] then js "oracle-validation" else s).take 63

/-- A DNS-style label. -/
structure ValidLabel (label : JsString) : Prop where
  nonempty : 1 ≤ label.length
  short : label.length ≤ 63
  clean : labels.Clean label

/-- The first words of a text make up 62 characters, and there are more. -/
def CutAtHyphen (text : JsString) : Prop :=
  ∃ front back, labels.words (toLowerCase text) = front ++ back ∧ front ≠ [] ∧ back ≠ [] ∧
    (labels.join front).length = 62

theorem hyphenate_eq (s : JsString) : hyphenate s = labels.join (labels.words s) :=
  Alphabet.strip_squeeze_mark s

/-- The characters of a label are in lowercase. -/
theorem toLowerCase_of_mem {s : JsString} (h : ∀ u ∈ s, labels.letter u = true ∨ u = labels.sep) :
    toLowerCase s = s := by
  have hunit : ∀ u ∈ s, (if u = 0x212A then [107] else if u = 0x130 then [105, 0x307]
      else [lowerUnit u]) = [u] := by
    intro u hu
    have hsmall : u.toNat ≤ 122 ∧ ¬ (65 ≤ u.toNat ∧ u.toNat ≤ 90) := by
      rcases h u hu with hletter | rfl
      · have hletter := of_decide_eq_true hletter
        omega
      · decide
    have h1 : u ≠ 0x212A := by
      rintro rfl
      exact absurd hsmall (by decide)
    have h2 : u ≠ 0x130 := by
      rintro rfl
      exact absurd hsmall (by decide)
    rw [if_neg h1, if_neg h2, lowerUnit, if_neg hsmall.2]
  unfold toLowerCase
  rw [List.flatMap_congr hunit]
  exact List.flatMap_singleton' s

theorem toLowerCase_label {label : JsString} (h : labels.Clean label) : toLowerCase label = label :=
  toLowerCase_of_mem h.mem

/-- What every label is made of, also one that was cut off. -/
theorem sanitizeEnsLabel_mem {raw : JsValue} {label : JsString}
    (h : sanitizeEnsLabel raw = some label) :
    label ≠ [] ∧ ∀ u ∈ label, labels.letter u = true ∨ u = labels.sep := by
  obtain ⟨text, -, rfl⟩ := Option.map_eq_some_iff.1 h
  have hdefault : ∀ u ∈ js "oracle-validation", labels.letter u = true ∨ u = labels.sep := by
    decide
  have hwords : ∀ u ∈ hyphenate (toLowerCase text), labels.letter u = true ∨ u = labels.sep := by
    rw [hyphenate_eq]
    exact (Alphabet.clean_join (Alphabet.proper_words _)).mem
  by_cases hnil : hyphenate (toLowerCase text) = []
  · simp only [if_pos hnil]
    exact ⟨by decide, fun u hu => hdefault u (List.mem_of_mem_take hu)⟩
  · simp only [if_neg hnil]
    refine ⟨?_, fun u hu => hwords u (List.mem_of_mem_take hu)⟩
    simp [List.take_eq_nil_iff, hnil]

/-- **A valid label is sanitised to itself.** -/
theorem sanitizeEnsLabel_valid {label : JsString} (h : ValidLabel label) :
    sanitizeEnsLabel (.str label) = some label := by
  have hne : label ≠ [] := List.ne_nil_of_length_pos h.nonempty
  have htext : labelText (.str label) = some label := by
    unfold labelText
    obtain ⟨u, r, rfl⟩ := List.exists_cons_of_ne_nil hne
    have htruthy : truthy (.str (u :: r)) = true := rfl
    rw [if_pos htruthy, JsValue.toText_str]
  rw [sanitizeEnsLabel, htext, Option.map_some, toLowerCase_label h.clean, hyphenate,
    Alphabet.steps_of_clean h.clean]
  simp only [if_neg hne, List.take_of_length_le h.short]

theorem validLabel_default : ValidLabel ((js "oracle-validation").take 63) := by
  have hwords : labels.join (labels.words (js "oracle-validation")) =
      (js "oracle-validation").take 63 := by decide
  refine ⟨by decide, by decide, ?_⟩
  rw [← hwords]
  exact Alphabet.clean_join (Alphabet.proper_words _)

/-- A label is valid unless it was cut off behind a hyphen. -/
theorem validLabel_iff (text : JsString) :
    ValidLabel ((if hyphenate (toLowerCase text) = [] then js "oracle-validation"
      else hyphenate (toLowerCase text)).take 63) ↔ ¬ CutAtHyphen text := by
  have hproper := Alphabet.proper_words (A := labels) (toLowerCase text)
  have hcut : CutAtHyphen text ↔
      (labels.join (labels.words (toLowerCase text)))[62]? = some labels.sep :=
    (Alphabet.join_sep_iff hproper 62).symm
  rw [hcut, hyphenate_eq]
  by_cases hwords : labels.words (toLowerCase text) = []
  · rw [hwords]
    exact iff_of_true validLabel_default (by decide)
  · have hne := Alphabet.join_ne_nil hproper hwords
    have hcutoff := Alphabet.clean_take_iff (Alphabet.clean_join hproper) 62
    rw [ne_eq] at hcutoff
    rw [if_neg hne, ← hcutoff]
    constructor
    · exact fun h => h.clean
    · intro h
      refine ⟨?_, ?_, h⟩
      · rw [List.length_take]
        have := List.length_pos_of_ne_nil hne
        omega
      · rw [List.length_take]
        omega

/-- **Exactly when a label is valid** and sanitised to itself: where the conversion to a string does
not throw, unless the label is cut off behind a hyphen. -/
theorem sanitizeEnsLabel_iff (raw : JsValue) :
    (∃ label, sanitizeEnsLabel raw = some label ∧ ValidLabel label ∧
        sanitizeEnsLabel (.str label) = some label) ↔
      ∃ text, labelText raw = some text ∧ ¬ CutAtHyphen text := by
  constructor
  · rintro ⟨label, hlabel, hvalid, -⟩
    obtain ⟨text, htext, rfl⟩ := Option.map_eq_some_iff.1 hlabel
    exact ⟨text, htext, (validLabel_iff text).1 hvalid⟩
  · rintro ⟨text, htext, hcut⟩
    have hvalid := (validLabel_iff text).2 hcut
    refine ⟨_, ?_, hvalid, sanitizeEnsLabel_valid hvalid⟩
    rw [sanitizeEnsLabel, htext, Option.map_some]

/-- Sixty-two letters, a hyphen and a letter more. -/
theorem sanitizeEnsLabel_hyphen :
    ∃ label, sanitizeEnsLabel (.str (List.replicate 62 97 ++ js "-b")) = some label ∧
      label.getLast? = some 45 ∧ ¬ ValidLabel label ∧
      sanitizeEnsLabel (.str label) = some (List.replicate 62 97) := by
  have hlabel : sanitizeEnsLabel (.str (List.replicate 62 97 ++ js "-b")) =
      some (List.replicate 62 97 ++ [45]) := by decide +kernel
  refine ⟨_, hlabel, by decide, fun h => ?_, by decide +kernel⟩
  exact h.clean.last (by decide)

end SealedSky.Backend
