import SealedSky.Lib.Utf8
import Mathlib.Data.List.DropRight
import Mathlib.Data.List.TakeWhile

/-!
# JavaScript strings

A JavaScript string is a list of UTF-16 code units. What leaves the program as UTF-8 (`TextEncoder`,
`crypto.createHmac(…).update`) is first made well formed: a surrogate on its own becomes U+FFFD.

* `toWellFormed_append` — joining strings around an ordinary character joins their characters.
* `WellFormed.flatMap_units` — a string without lone surrogates loses nothing.
* `trim_of_noSpace` — a text without white space is its own `trim()`.
* `trim_trim` — trimming twice is trimming once.
-/
namespace SealedSky.Js

abbrev JsString := List UInt16

/-- The code units of a character. -/
def units (c : Char) : JsString :=
  if c.toNat < 0x10000 then [UInt16.ofNat c.toNat]
  else [UInt16.ofNat (0xD800 + (c.toNat - 0x10000) / 0x400),
    UInt16.ofNat (0xDC00 + (c.toNat - 0x10000) % 0x400)]

/-- A string literal. -/
def js (s : String) : JsString := s.toList.flatMap units

/-! ## Well-formed text -/

def isHigh (u : UInt16) : Bool := decide (0xD800 ≤ u.toNat ∧ u.toNat < 0xDC00)

def isLow (u : UInt16) : Bool := decide (0xDC00 ≤ u.toNat ∧ u.toNat < 0xE000)

/-- A code unit on its own. -/
def single (u : UInt16) : Char := if isHigh u || isLow u then '\uFFFD' else Char.ofNat u.toNat

def pair (u v : UInt16) : Char :=
  Char.ofNat ((u.toNat - 0xD800) * 0x400 + (v.toNat - 0xDC00) + 0x10000)

/-- The characters of `s.toWellFormed()`. -/
def toWellFormed : JsString → List Char
  | [] => []
  | [u] => [single u]
  | u :: v :: r => if isHigh u && isLow v then pair u v :: toWellFormed r
    else single u :: toWellFormed (v :: r)

/-- The bytes of `new TextEncoder().encode(s)`. -/
def utf8 (s : JsString) : List UInt8 := Utf8.encode (toWellFormed s)

theorem toWellFormed_cons_cons (u v : UInt16) (r : JsString) :
    toWellFormed (u :: v :: r) = if isHigh u && isLow v then pair u v :: toWellFormed r
      else single u :: toWellFormed (v :: r) := by
  rw [toWellFormed.eq_def]

theorem toWellFormed_cons {u : UInt16} (hh : isHigh u = false) (r : JsString) :
    toWellFormed (u :: r) = single u :: toWellFormed r := by
  cases r with
  | nil => rfl
  | cons v r =>
    rw [toWellFormed_cons_cons, hh]
    rfl

/-- A character that is no surrogate never pairs with its neighbours. -/
theorem toWellFormed_append {c : UInt16} (hh : isHigh c = false) (hl : isLow c = false) :
    ∀ xs ys : JsString,
      toWellFormed (xs ++ c :: ys) = toWellFormed xs ++ single c :: toWellFormed ys
  | [], ys => toWellFormed_cons hh ys
  | [u], ys => by
    rw [List.singleton_append, toWellFormed_cons_cons, hl, Bool.and_false, if_neg (by decide),
      toWellFormed_cons hh]
    rfl
  | u :: v :: r, ys => by
    rw [List.cons_append, List.cons_append, toWellFormed_cons_cons, toWellFormed_cons_cons]
    split
    · rw [toWellFormed_append hh hl r ys, List.cons_append]
    · rw [← List.cons_append, toWellFormed_append hh hl (v :: r) ys, List.cons_append]

/-- A string without lone surrogates. -/
inductive WellFormed : JsString → Prop where
  | nil : WellFormed []
  | unit {u : UInt16} {r : JsString} (hh : isHigh u = false) (hl : isLow u = false)
      (h : WellFormed r) : WellFormed (u :: r)
  | pair {u v : UInt16} {r : JsString} (hu : isHigh u = true) (hv : isLow v = true)
      (h : WellFormed r) : WellFormed (u :: v :: r)

theorem WellFormed.append {s t : JsString} (hs : WellFormed s) (ht : WellFormed t) :
    WellFormed (s ++ t) := by
  induction hs with
  | nil => exact ht
  | unit hh hl _ ih => exact .unit hh hl ih
  | pair hu hv _ ih => exact .pair hu hv ih

/-- Behind a well-formed text nothing pairs with it. -/
theorem WellFormed.toWellFormed_append {s : JsString} (h : WellFormed s) (t : JsString) :
    toWellFormed (s ++ t) = toWellFormed s ++ toWellFormed t := by
  induction h with
  | nil => rfl
  | unit hh _ _ ih =>
    rw [List.cons_append, toWellFormed_cons hh, toWellFormed_cons hh, ih, List.cons_append]
  | pair hu hv _ ih =>
    rw [List.cons_append, List.cons_append, toWellFormed_cons_cons, toWellFormed_cons_cons, hu, hv,
      Bool.and_self, if_pos rfl, if_pos rfl, ih, List.cons_append]

theorem wellFormed_of_forall {s : JsString} (h : ∀ u ∈ s, isHigh u = false ∧ isLow u = false) :
    WellFormed s := by
  induction s with
  | nil => exact .nil
  | cons u r ih =>
    obtain ⟨hh, hl⟩ := h u List.mem_cons_self
    exact .unit hh hl (ih fun w hw => h w (List.mem_cons_of_mem u hw))

theorem units_single {u : UInt16} (hh : isHigh u = false) (hl : isLow u = false) :
    units (single u) = [u] := by
  have hu : u.toNat < 65536 := u.toNat_lt
  have hvalid : u.toNat.isValidChar := by
    simp only [isHigh, isLow, decide_eq_false_iff_not] at hh hl
    unfold Nat.isValidChar
    omega
  have hnat : (Char.ofNat u.toNat).toNat = u.toNat := Utf8.toNat_ofNat hvalid
  have hsingle : single u = Char.ofNat u.toNat := by
    rw [single, hh, hl]
    rfl
  rw [hsingle, units, hnat, if_pos hu, UInt16.ofNat_toNat]

theorem units_pair {u v : UInt16} (hu : isHigh u = true) (hv : isLow v = true) :
    units (pair u v) = [u, v] := by
  simp only [isHigh, isLow, decide_eq_true_eq] at hu hv
  have hvalid : ((u.toNat - 0xD800) * 0x400 + (v.toNat - 0xDC00) + 0x10000).isValidChar := by
    unfold Nat.isValidChar
    omega
  have hnat : (pair u v).toNat = (u.toNat - 0xD800) * 0x400 + (v.toNat - 0xDC00) + 0x10000 :=
    Utf8.toNat_ofNat hvalid
  unfold units
  rw [hnat, if_neg (by omega)]
  have hhigh : 0xD800 + ((u.toNat - 0xD800) * 0x400 + (v.toNat - 0xDC00) + 0x10000 - 0x10000) /
      0x400 = u.toNat := by omega
  have hlow : 0xDC00 + ((u.toNat - 0xD800) * 0x400 + (v.toNat - 0xDC00) + 0x10000 - 0x10000) %
      0x400 = v.toNat := by omega
  rw [hhigh, hlow, UInt16.ofNat_toNat, UInt16.ofNat_toNat]

/-- **A well-formed string is made of the code units of its characters.** -/
theorem WellFormed.flatMap_units {s : JsString} (h : WellFormed s) :
    (toWellFormed s).flatMap units = s := by
  induction h with
  | nil => rfl
  | unit hh hl _ ih =>
    rw [toWellFormed_cons hh, List.flatMap_cons, ih, units_single hh hl, List.singleton_append]
  | pair hu hv _ ih =>
    rw [toWellFormed_cons_cons, hu, hv, Bool.and_self, if_pos rfl, List.flatMap_cons, ih,
      units_pair hu hv]
    rfl

/-- A text that had lone surrogates has U+FFFD in their place. -/
theorem wellFormed_of_notMem : ∀ {s : JsString}, '\uFFFD' ∉ toWellFormed s → WellFormed s
  | [], _ => .nil
  | [u], h => by
    rw [toWellFormed, List.mem_singleton] at h
    have hu : ¬ (isHigh u || isLow u) = true := fun hu => h (if_pos hu).symm
    rw [Bool.or_eq_true, not_or, Bool.not_eq_true, Bool.not_eq_true] at hu
    exact .unit hu.1 hu.2 .nil
  | u :: v :: r, h => by
    rw [toWellFormed_cons_cons] at h
    split at h
    · rename_i huv
      rw [Bool.and_eq_true] at huv
      exact .pair huv.1 huv.2 (wellFormed_of_notMem fun hmem => h (List.mem_cons_of_mem _ hmem))
    · have hu : ¬ (isHigh u || isLow u) = true :=
        fun hu => h (List.mem_cons.2 (Or.inl (if_pos hu).symm))
      rw [Bool.or_eq_true, not_or, Bool.not_eq_true, Bool.not_eq_true] at hu
      exact .unit hu.1 hu.2 (wellFormed_of_notMem fun hmem => h (List.mem_cons_of_mem _ hmem))

theorem units_ascii {u : UInt16} (hu : u.toNat < 0x80) : units (Char.ofNat u.toNat) = [u] := by
  have hnat : (Char.ofNat u.toNat).toNat = u.toNat := Utf8.toNat_ofNat (Or.inl (by omega))
  rw [units, hnat, if_pos (by omega), UInt16.ofNat_toNat]

theorem eq_of_single {u v : UInt16} (hu : u.toNat < 0x80) (h : Char.ofNat u.toNat = single v) :
    u = v := by
  have hunits := units_ascii hu
  by_cases hv : (isHigh v || isLow v) = true
  · rw [h, single, if_pos hv] at hunits
    obtain rfl : 0xFFFD = u := List.singleton_inj.1 hunits
    exact absurd hu (by decide)
  · rw [Bool.or_eq_true, not_or, Bool.not_eq_true, Bool.not_eq_true] at hv
    rw [h, units_single hv.1 hv.2] at hunits
    exact (List.singleton_inj.1 hunits).symm

theorem ne_pair {u v w : UInt16} (hu : u.toNat < 0x80) (hv : isHigh v = true) (hw : isLow w = true) :
    Char.ofNat u.toNat ≠ pair v w := by
  intro h
  have hunits := units_pair hv hw
  rw [← h, units_ascii hu] at hunits
  cases hunits

/-- An ordinary character of a text is one of its units. -/
theorem mem_of_mem_toWellFormed {u : UInt16} (hu : u.toNat < 0x80) :
    ∀ {s : JsString}, Char.ofNat u.toNat ∈ toWellFormed s → u ∈ s
  | [], h => by cases h
  | [v], h => by
    rw [toWellFormed, List.mem_singleton] at h
    exact List.mem_singleton.2 (eq_of_single hu h)
  | v :: w :: r, h => by
    rw [toWellFormed_cons_cons] at h
    split at h
    · rename_i hvw
      rw [Bool.and_eq_true] at hvw
      rcases List.mem_cons.1 h with h | h
      · exact absurd h (ne_pair hu hvw.1 hvw.2)
      · exact List.mem_cons_of_mem _ (List.mem_cons_of_mem _ (mem_of_mem_toWellFormed hu h))
    · rcases List.mem_cons.1 h with h | h
      · exact List.mem_cons.2 (Or.inl (eq_of_single hu h))
      · exact List.mem_cons_of_mem _ (mem_of_mem_toWellFormed hu h)

/-- Only a text itself has its bytes, unless U+FFFD is in it. -/
theorem eq_of_utf8 {s t : JsString} (ht : WellFormed t) (hmark : 0xFFFD ∉ t)
    (h : utf8 s = utf8 t) : s = t := by
  have hchars : toWellFormed s = toWellFormed t := Utf8.encode_injective h
  have hs : WellFormed s := by
    refine wellFormed_of_notMem fun hmem => hmark ?_
    rw [← ht.flatMap_units, ← hchars]
    exact List.mem_flatMap.2 ⟨_, hmem, by decide⟩
  rw [← hs.flatMap_units, hchars, ht.flatMap_units]

/-! ## White space -/

/-- `WhiteSpace` and `LineTerminator`. -/
def isSpace (u : UInt16) : Bool :=
  decide (9 ≤ u.toNat ∧ u.toNat ≤ 13) || u == 0x20 || u == 0xA0 || u == 0x1680 ||
    decide (0x2000 ≤ u.toNat ∧ u.toNat ≤ 0x200A) || u == 0x2028 || u == 0x2029 || u == 0x202F ||
    u == 0x205F || u == 0x3000 || u == 0xFEFF

/-- `s.trim()`. -/
def trim (s : JsString) : JsString := (s.dropWhile isSpace).rdropWhile isSpace

theorem trim_of_noSpace {s : JsString} (h : ∀ u ∈ s, isSpace u = false) : trim s = s := by
  have hfront : s.dropWhile isSpace = s :=
    List.dropWhile_eq_self_iff.2 fun hl => Bool.eq_false_iff.1 (h _ (List.getElem_mem hl))
  have hback : s.rdropWhile isSpace = s :=
    List.rdropWhile_eq_self_iff.2 fun hl => Bool.eq_false_iff.1 (h _ (List.getLast_mem hl))
  rw [trim, hfront, hback]

/-- White space around a text without any is trimmed off. -/
theorem trim_between {w s w' : JsString} (hw : ∀ u ∈ w, isSpace u = true)
    (hs : ∀ u ∈ s, isSpace u = false) (hw' : ∀ u ∈ w', isSpace u = true) :
    trim (w ++ (s ++ w')) = trim s := by
  have hback : (s ++ w').rdropWhile isSpace = s := by
    rw [List.rdropWhile, List.reverse_append,
      List.dropWhile_append_of_pos fun u hu => hw' u (List.mem_reverse.1 hu), ← List.rdropWhile]
    exact List.rdropWhile_eq_self_iff.2 fun hl => Bool.eq_false_iff.1 (hs _ (List.getLast_mem hl))
  rw [trim_of_noSpace hs, trim, List.dropWhile_append_of_pos hw]
  cases s with
  | nil =>
    rw [List.nil_append, List.dropWhile_eq_nil_iff.2 hw']
    rfl
  | cons u s =>
    have hu : ¬ isSpace u = true := by
      rw [hs u List.mem_cons_self]
      decide
    rw [List.cons_append, List.dropWhile_cons_of_neg hu]
    exact hback

theorem trim_trim (s : JsString) : trim (trim s) = trim s := by
  have hfront : (trim s).dropWhile isSpace = trim s := by
    cases ht : trim s with
    | nil => rfl
    | cons u t =>
      -- cutting white space off the end leaves the first character alone
      obtain ⟨r, hr⟩ := List.rdropWhile_prefix isSpace (s.dropWhile isSpace)
      have hself := List.dropWhile_idempotent isSpace s
      rw [← hr, ← trim, ht, List.cons_append] at hself
      have hu := List.dropWhile_eq_self_iff.1 hself (Nat.succ_pos _)
      exact List.dropWhile_cons_of_neg hu
  rw [trim, hfront, trim, List.rdropWhile_idempotent]

/-- A trimmed text does not end in white space. -/
theorem isSpace_last_of_trim {s t : JsString} {u : UInt16} (h : trim s = t ++ [u]) :
    isSpace u = false := by
  have hself := List.rdropWhile_idempotent isSpace (s.dropWhile isSpace)
  rw [← trim, h] at hself
  have hlast := List.rdropWhile_eq_self_iff.1 hself (by simp)
  rw [List.getLast_concat] at hlast
  exact Bool.eq_false_iff.2 hlast

/-- Trimming keeps what is no white space. -/
theorem mem_trim {s : JsString} {u : UInt16} (hu : u ∈ s) (h : isSpace u = false) : u ∈ trim s := by
  have hdrop : ∀ r : JsString, u ∈ r → u ∈ r.dropWhile isSpace := by
    intro r hr
    rw [← List.takeWhile_append_dropWhile (p := isSpace) (l := r)] at hr
    rcases List.mem_append.1 hr with hr | hr
    · have hspace := List.mem_takeWhile_imp hr
      rw [h] at hspace
      cases hspace
    · exact hr
  rw [trim, List.rdropWhile, List.mem_reverse]
  exact hdrop _ (List.mem_reverse.2 (hdrop s hu))

theorem trim_ne_nil_of_mem {s : JsString} {u : UInt16} (hu : u ∈ s) (h : isSpace u = false) :
    trim s ≠ [] := List.ne_nil_of_mem (mem_trim hu h)

end SealedSky.Js
