import Mathlib.Data.List.Basic

/-!
# Searching a text for a quoted field

`find` is the first occurrence of a pattern, `closing q e` the first quote `q` that no escape `e`
stands before, and `field` puts them together: the text between the first two quotes after a key.
Nothing is parsed, so two things have to be shown: that a key cannot be found inside another quoted
text (`skips_quoted`), and what a field becomes when the text is cut off (`field_take`).
-/
namespace SealedSky.Scan

variable {α : Type} [DecidableEq α]

/-! ## First occurrence -/

def find (pat : List α) : List α → Option Nat
  | [] => if pat = [] then some 0 else none
  | x :: xs => if pat.isPrefixOf (x :: xs) then some 0 else (find pat xs).map (· + 1)

theorem find_of_prefix {pat xs : List α} (h : pat <+: xs) : find pat xs = some 0 := by
  cases xs with
  | nil => rw [find, if_pos (List.prefix_nil.1 h)]
  | cons x xs => rw [find, if_pos (List.isPrefixOf_iff_prefix.2 h)]

theorem find_sound {pat xs : List α} {i : Nat} (h : find pat xs = some i) :
    ∃ pre post, xs = pre ++ pat ++ post ∧ pre.length = i := by
  induction xs generalizing i with
  | nil =>
    simp only [find] at h
    split at h
    · rename_i hp
      cases h
      exact ⟨[], [], by simp [hp], rfl⟩
    · cases h
  | cons x xs ih =>
    simp only [find] at h
    split at h
    · rename_i hp
      obtain ⟨post, hpost⟩ := List.isPrefixOf_iff_prefix.1 hp
      cases h
      exact ⟨[], post, by simp [hpost], rfl⟩
    · obtain ⟨j, hj, rfl⟩ := Option.map_eq_some_iff.1 h
      obtain ⟨pre, post, rfl, rfl⟩ := ih hj
      exact ⟨x :: pre, post, by simp, rfl⟩

/-- Nothing is found before the first occurrence. -/
theorem find_first {pat xs : List α} {i : Nat} (h : find pat xs = some i) {pre post : List α}
    (hxs : xs = pre ++ pat ++ post) : i ≤ pre.length := by
  induction pre generalizing xs i with
  | nil =>
    have hzero : find pat xs = some 0 := find_of_prefix ⟨post, by rw [hxs]; simp⟩
    rw [hzero] at h
    cases h
    exact Nat.le_refl _
  | cons x pre ih =>
    subst hxs
    rw [List.cons_append, List.cons_append, find] at h
    split at h
    · cases h
      exact Nat.zero_le _
    · obtain ⟨j, hj, rfl⟩ := Option.map_eq_some_iff.1 h
      exact Nat.succ_le_succ (ih hj rfl)

/-- What is found in a part of the text is found at the same place in the whole. -/
theorem find_append {pat xs : List α} {i : Nat} (ys : List α) (h : find pat xs = some i) :
    find pat (xs ++ ys) = some i := by
  induction xs generalizing i with
  | nil =>
    simp only [find] at h
    split at h
    · rename_i hp
      cases h
      exact find_of_prefix (by simp [hp])
    · cases h
  | cons x xs ih =>
    simp only [find] at h
    split at h
    · rename_i hp
      cases h
      exact find_of_prefix ((List.isPrefixOf_iff_prefix.1 hp).trans (List.prefix_append _ _))
    · rename_i hp
      obtain ⟨j, hj, rfl⟩ := Option.map_eq_some_iff.1 h
      have hrec := ih hj
      by_cases hp' : pat.isPrefixOf (x :: (xs ++ ys))
      · -- a match that runs over the end of `x :: xs` cannot come before the one found
        obtain ⟨pre, post, hxs, -⟩ := find_sound hj
        have hle : pat.length ≤ (x :: xs).length := by
          rw [hxs]
          simp only [List.length_append, List.length_cons]
          omega
        have hpre := List.isPrefixOf_iff_prefix.1 hp'
        rw [← List.cons_append] at hpre
        exact absurd (List.isPrefixOf_iff_prefix.2
          (List.prefix_of_prefix_length_le hpre (List.prefix_append _ _) hle)) hp
      · rw [List.cons_append, find, if_neg hp', hrec]
        rfl

theorem find_isSome (pat pre post : List α) : ∃ i, find pat (pre ++ pat ++ post) = some i := by
  induction pre with
  | nil => exact ⟨0, find_of_prefix ⟨post, by simp⟩⟩
  | cons x pre ih =>
    rw [List.cons_append, List.cons_append, find]
    split
    · exact ⟨0, rfl⟩
    · obtain ⟨i, hi⟩ := ih
      exact ⟨i + 1, by rw [hi]; rfl⟩

/-- Conversely, a first occurrence that lies inside a part of the text is found there. -/
theorem find_of_append {pat xs : List α} (ys : List α) {i : Nat} (h : find pat (xs ++ ys) = some i)
    (hi : i + pat.length ≤ xs.length) : find pat xs = some i := by
  obtain ⟨pre, post, hsplit, rfl⟩ := find_sound h
  obtain ⟨post', rfl⟩ : pre ++ pat <+: xs := by
    have hpre : pre ++ pat <+: xs ++ ys := ⟨post, hsplit.symm⟩
    refine List.prefix_of_prefix_length_le hpre (List.prefix_append xs ys) ?_
    rw [List.length_append]
    exact hi
  obtain ⟨j, hj⟩ := find_isSome pat pre post'
  have := find_append ys hj
  rw [h, Option.some.injEq] at this
  rw [hj, this]

/-! ## Stretches a pattern cannot start in -/

/-- No occurrence of `pat` starts inside `xs`, read in front of `ys`. -/
def Skips (pat : List α) : List α → List α → Prop
  | [], _ => True
  | x :: xs, ys => ¬ pat <+: x :: (xs ++ ys) ∧ Skips pat xs ys

theorem find_skips {pat xs ys : List α} (h : Skips pat xs ys) :
    find pat (xs ++ ys) = (find pat ys).map (· + xs.length) := by
  induction xs with
  | nil => simp
  | cons x xs ih =>
    rw [List.cons_append, find, if_neg (fun hp => h.1 (List.isPrefixOf_iff_prefix.1 hp)), ih h.2]
    cases find pat ys <;> simp [Nat.add_assoc]

omit [DecidableEq α] in
theorem skips_append {pat xs zs ys : List α} (h : Skips pat xs (zs ++ ys)) (h' : Skips pat zs ys) :
    Skips pat (xs ++ zs) ys := by
  induction xs with
  | nil => exact h'
  | cons x xs ih =>
    refine ⟨?_, ih h.2⟩
    have h1 := h.1
    rw [← List.append_assoc] at h1
    exact h1

omit [DecidableEq α] in
theorem skips_of_notMem {q : α} {w xs ys : List α} (h : q ∉ xs) : Skips (q :: w) xs ys := by
  induction xs with
  | nil => trivial
  | cons x xs ih =>
    rw [List.mem_cons, not_or] at h
    refine ⟨fun hp => h.1 ?_, ih h.2⟩
    exact (List.cons_prefix_cons.1 hp).1

/-! ## Quoted text -/

/-- The place of the first quote outside an escape. -/
def closing (q e : α) : List α → Option Nat
  | [] => none
  | b :: bs =>
    if b = e then
      match bs with
      | [] => none
      | _ :: rest => (closing q e rest).map (· + 2)
    else if b = q then some 0
    else (closing q e bs).map (· + 1)

/-- A text whose quotes and escapes are all escaped. -/
inductive Body (q e : α) : List α → Prop where
  | nil : Body q e []
  | plain {c : α} {cs : List α} (hq : c ≠ q) (he : c ≠ e) (h : Body q e cs) : Body q e (c :: cs)
  | esc (c : α) {cs : List α} (h : Body q e cs) : Body q e (e :: c :: cs)

section
variable {q e : α}

omit [DecidableEq α] in
theorem Body.append {cs ds : List α} (h : Body q e cs) (h' : Body q e ds) : Body q e (cs ++ ds) := by
  induction h with
  | nil => exact h'
  | plain hq he _ ih => exact ih.plain hq he
  | esc c _ ih => exact ih.esc c

omit [DecidableEq α] in
theorem Body.flatMap {β : Type} {f : β → List α} {l : List β} (h : ∀ b ∈ l, Body q e (f b)) :
    Body q e (l.flatMap f) := by
  induction l with
  | nil => exact .nil
  | cons b l ih =>
    rw [List.flatMap_cons]
    exact (h b List.mem_cons_self).append (ih fun d hd => h d (List.mem_cons_of_mem _ hd))

omit [DecidableEq α] in
theorem body_of_notMem {cs : List α} (hq : q ∉ cs) (he : e ∉ cs) : Body q e cs := by
  induction cs with
  | nil => exact .nil
  | cons c cs ih =>
    rw [List.mem_cons, not_or] at hq he
    exact .plain (Ne.symm hq.1) (Ne.symm he.1) (ih hq.2 he.2)

omit [DecidableEq α] in
/-- The escapes at the end of a quoted text escape each other. -/
theorem Body.even_escapes {cs : List α} (h : Body q e cs) {front : List α} {k : Nat}
    (hcs : cs = front ++ List.replicate k e) (hfront : front.getLast? ≠ some e) : k % 2 = 0 := by
  induction h generalizing front k with
  | nil =>
    have hk := congrArg List.length hcs
    simp only [List.length_nil, List.length_append, List.length_replicate] at hk
    omega
  | @plain c cs _ hce _ ih =>
    cases front with
    | nil =>
      cases k with
      | zero => rfl
      | succ k => exact absurd (List.cons.inj hcs).1 hce
    | cons d front =>
      refine ih (List.cons.inj hcs).2 fun hlast => hfront ?_
      rw [List.getLast?_cons, hlast]
      rfl
  | @esc c cs _ ih =>
    match front with
    | [] =>
      match k with
      | 0 => rfl
      | 1 => simp at hcs
      | k + 2 =>
        have hk := @ih [] k (List.cons.inj (List.cons.inj hcs).2).2 (by simp)
        omega
    | [d] =>
      rw [(List.cons.inj hcs).1] at hfront
      exact absurd rfl hfront
    | d :: d' :: front =>
      refine ih (List.cons.inj (List.cons.inj hcs).2).2 fun hlast => hfront ?_
      rw [List.getLast?_cons, List.getLast?_cons, hlast]
      rfl

theorem closing_quote (hqe : q ≠ e) (xs : List α) : closing q e (q :: xs) = some 0 := by
  unfold closing
  rw [if_neg hqe, if_pos rfl]

theorem closing_plain {c : α} (hq : c ≠ q) (he : c ≠ e) (xs : List α) :
    closing q e (c :: xs) = (closing q e xs).map (· + 1) := by
  rw [closing.eq_def]
  simp only
  rw [if_neg he, if_neg hq]

theorem closing_esc (c : α) (xs : List α) :
    closing q e (e :: c :: xs) = (closing q e xs).map (· + 2) := by
  rw [closing.eq_def]
  simp only [if_true]

/-- The scan passes over quoted text. -/
theorem closing_body_append {cs : List α} (rest : List α) (h : Body q e cs) :
    closing q e (cs ++ rest) = (closing q e rest).map (· + cs.length) := by
  induction h with
  | nil => simp
  | plain hq he _ ih =>
    rw [List.cons_append, closing_plain hq he, ih]
    cases closing q e rest <;> simp [Nat.add_assoc]
  | esc c _ ih =>
    rw [List.cons_append, List.cons_append, closing_esc, ih]
    cases closing q e rest <;> simp [Nat.add_assoc]

theorem closing_body (hqe : q ≠ e) {cs : List α} (rest : List α) (h : Body q e cs) :
    closing q e (cs ++ q :: rest) = some cs.length := by
  rw [closing_body_append _ h, closing_quote hqe]
  simp

/-- What `closing` passes over is quoted text, and it stops at a quote. -/
theorem closing_sound : ∀ {xs : List α} {n : Nat}, closing q e xs = some n →
    ∃ body rest, xs = body ++ q :: rest ∧ body.length = n ∧ Body q e body
  | [], n, h => by simp [closing] at h
  | b :: bs, n, h => by
    by_cases he : b = e
    · rw [he] at h ⊢
      cases bs with
      | nil => simp [closing] at h
      | cons c bs =>
        rw [closing_esc] at h
        obtain ⟨m, hm, rfl⟩ := Option.map_eq_some_iff.1 h
        obtain ⟨body, rest, rfl, rfl, hb⟩ := closing_sound hm
        exact ⟨e :: c :: body, rest, rfl, rfl, hb.esc c⟩
    · by_cases hq : b = q
      · rw [hq] at h he ⊢
        rw [closing_quote he] at h
        cases h
        exact ⟨[], bs, rfl, rfl, .nil⟩
      · rw [closing_plain hq he] at h
        obtain ⟨m, hm, rfl⟩ := Option.map_eq_some_iff.1 h
        obtain ⟨body, rest, rfl, rfl, hb⟩ := closing_sound hm
        exact ⟨b :: body, rest, rfl, rfl, hb.plain hq he⟩

theorem closing_append (hqe : q ≠ e) {xs : List α} {n : Nat} (ys : List α)
    (h : closing q e xs = some n) : closing q e (xs ++ ys) = some n := by
  obtain ⟨body, rest, rfl, rfl, hb⟩ := closing_sound h
  rw [List.append_assoc, List.cons_append]
  exact closing_body hqe (rest ++ ys) hb

/-- Cut off before its closing quote, a quoted text has none. -/
theorem closing_take (hqe : q ≠ e) {cs : List α} (h : Body q e cs) {n : Nat} (hn : n ≤ cs.length) :
    closing q e (cs.take n) = none := by
  cases hc : closing q e (cs.take n) with
  | none => rfl
  | some m =>
    have hm := closing_append hqe (cs.drop n ++ [q]) hc
    rw [← List.append_assoc, List.take_append_drop, closing_body hqe [] h, Option.some.injEq] at hm
    obtain ⟨body, rest, hb, rfl, -⟩ := closing_sound hc
    have hlen := congrArg List.length hb
    rw [List.length_take, List.length_append, List.length_cons] at hlen
    omega

/-! ## Keys and quoted text -/

omit [DecidableEq α] in
/-- In a quoted text every quote is escaped, so a word in front of a quote is all of the text. -/
theorem Body.word_quote (hqe : q ≠ e) {cs rest : List α} (h : Body q e cs) :
    ∀ {w t : List α}, w ≠ [] → q ∉ w → e ∉ w → cs ++ q :: rest = w ++ q :: t → t = rest := by
  induction h with
  | nil =>
    intro w t hw hq _ heq
    obtain ⟨b, w, rfl⟩ := List.exists_cons_of_ne_nil hw
    rw [List.nil_append, List.cons_append, List.cons.injEq] at heq
    exact absurd (heq.1 ▸ List.mem_cons_self) hq
  | esc c h ih =>
    intro w t hw _ he heq
    obtain ⟨b, w, rfl⟩ := List.exists_cons_of_ne_nil hw
    rw [List.cons_append, List.cons_append, List.cons_append, List.cons.injEq] at heq
    exact absurd (heq.1 ▸ List.mem_cons_self) he
  | @plain c cs hcq hce h ih =>
    intro w t hw hq he heq
    obtain ⟨b, w, rfl⟩ := List.exists_cons_of_ne_nil hw
    rw [List.cons_append, List.cons_append, List.cons.injEq] at heq
    by_cases hw' : w = []
    · -- the quote comes right after `c`: it is the closing one
      subst hw'
      cases h with
      | nil => exact (List.cons.inj heq.2).2.symm
      | plain hdq _ _ => exact absurd (List.cons.inj heq.2).1 hdq
      | esc d _ => exact absurd (List.cons.inj heq.2).1.symm hqe
    · exact ih hw' (fun hm => hq (List.mem_cons_of_mem _ hm))
        (fun hm => he (List.mem_cons_of_mem _ hm)) heq.2

/-- A key: a word in quotes and a mark after it. The marks after quoted texts differ from it. -/
structure KeyWord (q e : α) (w : List α) : Prop where
  ne_nil : w ≠ []
  quote : q ∉ w
  escape : e ∉ w

omit [DecidableEq α] in
theorem KeyWord.not_prefix {w cs ys : List α} {k c : α} (hw : KeyWord q e w) (hqe : q ≠ e)
    (h : Body q e cs) (hkc : k ≠ c) : ¬ w ++ [q, k] <+: cs ++ q :: c :: ys := by
  rintro ⟨t, ht⟩
  rw [List.append_assoc] at ht
  have := h.word_quote hqe hw.ne_nil hw.quote hw.escape ht.symm
  exact hkc (List.cons.inj this).1

omit [DecidableEq α] in
/-- **No key inside a quoted text.** -/
theorem skips_quoted {w cs ys : List α} {k c : α} (hw : KeyWord q e w) (hqe : q ≠ e)
    (h : Body q e cs) (hkc : k ≠ c) : Skips (q :: (w ++ [q, k])) cs (q :: c :: ys) := by
  induction h with
  | nil => trivial
  | plain hq _ _ ih => exact ⟨fun hp => hq (List.cons_prefix_cons.1 hp).1.symm, ih⟩
  | esc d h ih =>
    refine ⟨fun hp => hqe (List.cons_prefix_cons.1 hp).1, fun hp => ?_, ih⟩
    exact hw.not_prefix hqe h hkc (List.cons_prefix_cons.1 hp).2

omit [DecidableEq α] in
theorem skips_quote_quoted {w cs ys : List α} {k c : α} (hw : KeyWord q e w) (hqe : q ≠ e)
    (h : Body q e cs) (hkc : k ≠ c) : Skips (q :: (w ++ [q, k])) (q :: cs) (q :: c :: ys) :=
  ⟨fun hp => hw.not_prefix hqe h hkc (List.cons_prefix_cons.1 hp).2, skips_quoted hw hqe h hkc⟩

/-! ## The field after a key -/

/-- The text between the first two quotes after the first occurrence of `key`, if all are there. -/
def field (q e : α) (key xs : List α) : List α :=
  match find key xs with
  | none => []
  | some i =>
    match find [q] (xs.drop (i + key.length)) with
    | none => []
    | some j =>
      let content := (xs.drop (i + key.length)).drop (j + 1)
      match closing q e content with
      | none => []
      | some n => content.take n

theorem find_quote (q : α) (xs : List α) : find [q] (q :: xs) = some 0 :=
  find_of_prefix ⟨xs, rfl⟩

theorem field_eq (hqe : q ≠ e) {key pre body rest : List α} (h : Body q e body)
    (hk : find key (pre ++ (key ++ q :: (body ++ q :: rest))) = some pre.length) :
    field q e key (pre ++ (key ++ q :: (body ++ q :: rest))) = body := by
  unfold field
  rw [hk]
  simp only
  rw [← List.append_assoc, List.drop_left' (by simp), find_quote]
  simp only [Nat.zero_add, List.drop_one, List.tail_cons]
  rw [closing_body hqe rest h]
  simp

/-- **Where a field stands** that is not empty: behind the first quote behind the first key, and in
front of a quote. -/
theorem field_sound {key xs value : List α} (h : field q e key xs = value) (hne : value ≠ []) :
    Body q e value ∧ ∃ pre gap rest, xs = pre ++ key ++ (gap ++ q :: (value ++ q :: rest)) ∧ q ∉ gap ∧
      ∀ pre' post, xs = pre' ++ key ++ post → pre.length ≤ pre'.length := by
  unfold field at h
  cases hk : find key xs with
  | none =>
    rw [hk] at h
    exact absurd h.symm hne
  | some i =>
    rw [hk] at h
    obtain ⟨pre, post, hsplit, rfl⟩ := find_sound hk
    have hpost : xs.drop (pre.length + key.length) = post := by
      rw [hsplit, List.drop_left' (by simp)]
    simp only [hpost] at h
    cases hq : find [q] post with
    | none =>
      rw [hq] at h
      exact absurd h.symm hne
    | some j =>
      rw [hq] at h
      obtain ⟨gap, content, hgap, rfl⟩ := find_sound hq
      have hcontent : post.drop (gap.length + 1) = content := by
        rw [hgap, List.drop_left' (by simp)]
      simp only [hcontent] at h
      cases hc : closing q e content with
      | none =>
        rw [hc] at h
        exact absurd h.symm hne
      | some n =>
        rw [hc] at h
        obtain ⟨body, rest, rfl, rfl, hbody⟩ := closing_sound hc
        simp only [List.take_left] at h
        subst h
        refine ⟨hbody, pre, gap, rest, ?_, fun hmem => ?_, fun pre' post' h => find_first hk h⟩
        · rw [hsplit, hgap]
          simp
        · -- a quote in the gap would have been found before
          obtain ⟨g, g', rfl⟩ := List.append_of_mem hmem
          have hbefore : post = g ++ [q] ++ (g' ++ q :: (body ++ q :: rest)) := by
            rw [hgap]
            simp
          have hle := find_first hq hbefore
          rw [List.length_append, List.length_cons] at hle
          omega

/-- **A field of a text that is cut off.** It is whole if its closing quote is still there, and
empty otherwise. -/
theorem field_take (hqe : q ≠ e) {key pre body rest : List α} (h : Body q e body)
    (hk : find key (pre ++ (key ++ q :: (body ++ q :: rest))) = some pre.length) (n : Nat) :
    field q e key ((pre ++ (key ++ q :: (body ++ q :: rest))).take n) =
      if n ≤ pre.length + key.length + 1 + body.length then [] else body := by
  split
  · rename_i hn
    unfold field
    cases hf : find key ((pre ++ (key ++ q :: (body ++ q :: rest))).take n) with
    | none => rfl
    | some i =>
      -- the key is found where it is in the whole text
      have hi := find_append ((pre ++ (key ++ q :: (body ++ q :: rest))).drop n) hf
      rw [List.take_append_drop, hk, Option.some.injEq] at hi
      subst hi
      simp only
      rw [List.drop_take, ← List.append_assoc, List.drop_left' (by simp)]
      cases hm : n - (pre.length + key.length) with
      | zero => simp [find]
      | succ m =>
        rw [List.take_succ_cons, find_quote]
        simp only [Nat.zero_add, List.drop_one, List.tail_cons]
        rw [List.take_append_of_le_length (by omega), closing_take hqe h (by omega)]
  · rename_i hn
    have hsplit : (pre ++ (key ++ q :: (body ++ q :: rest))).take n =
        pre ++ (key ++ q :: (body ++ q :: rest.take (n - (pre.length + key.length + 2 +
          body.length)))) := by
      obtain ⟨m, rfl⟩ : ∃ m, n = pre.length + (key.length + (body.length + (m + 1) + 1)) :=
        ⟨n - (pre.length + key.length + 2 + body.length), by omega⟩
      rw [List.take_length_add_append, List.take_length_add_append, List.take_succ_cons,
        List.take_length_add_append, List.take_succ_cons]
      have harith : pre.length + (key.length + (body.length + (m + 1) + 1)) -
          (pre.length + key.length + 2 + body.length) = m := by omega
      rw [harith]
    rw [hsplit]
    refine field_eq hqe h (find_of_append
      (rest.drop (n - (pre.length + key.length + 2 + body.length))) ?_ ?_)
    · simp only [List.append_assoc, List.cons_append, List.take_append_drop]
      exact hk
    · simp only [List.length_append]
      omega

end

end SealedSky.Scan
