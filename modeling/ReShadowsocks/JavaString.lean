/-
String functions of the Java library.

Strings are lists of UTF-16 code units; what does not look at the units themselves is stated
for lists of any type.  A function that throws returns `none`.

`pieces sep s` are the parts of `s` between the occurrences of `sep`, taken from left to right
without overlap; `split` and `replace` both come from it.  `Hidden sep b a` says that no
occurrence of `sep` starts in the part `a` of `a ++ b`.

* `pieces_append`, `pieces_eq_singleton` — how a text is cut, from where `sep` can occur;
* `split_intercalate` — parts that were put together with a separator are cut apart again;
* `indexOf_append`, `lastIndexOf_append` — the first and the last place of a unit;
* `exists_indexOf`, `exists_lastIndexOf` — a text is cut at such a place;
* `parseIntOf_eq_some_iff` — the texts that are read as an `int`, with the digits of any script;
* `parseInt_decimal` — an `int` is read back from its decimal text.
-/
import Mathlib.Data.List.DropRight
import ReShadowsocks.Json

namespace JavaString

/-- The unit that texts with several fields are cut at. -/
def bar : UInt16 := 0x7C

variable {α : Type*}

/-! ### Occurrences -/

/-- No occurrence of `sep` in `a ++ b` starts in `a`. -/
def Hidden (sep b : List α) : List α → Prop
  | [] => True
  | c :: t => ¬ sep <+: c :: t ++ b ∧ Hidden sep b t

/-- A unit of `sep` that does not occur. -/
theorem hidden_of_not_mem {sep a : List α} {d : α} (hd : d ∈ sep) (ha : d ∉ a) :
    Hidden sep [] a := by
  induction a with
  | nil => trivial
  | cons c a ih =>
    refine ⟨fun hpre => ha ?_, ih fun hmem => ha (List.mem_cons_of_mem c hmem)⟩
    rw [List.append_nil] at hpre
    exact hpre.subset hd

/-- No occurrence starts where the first unit of `sep` does not stand. -/
theorem hidden_cons {a : List α} {d : α} (sep b : List α) (ha : d ∉ a) :
    Hidden (d :: sep) b a := by
  induction a with
  | nil => trivial
  | cons c a ih =>
    refine ⟨fun hpre => ha ?_, ih fun hmem => ha (List.mem_cons_of_mem c hmem)⟩
    have heq : d = c := (List.cons_prefix_cons.mp hpre).1
    rw [heq]
    exact List.mem_cons_self

/-- `d` does not stand next to itself. -/
def Apart (d : α) (s : List α) : Prop := s.IsChain fun x y => ¬ (x = d ∧ y = d)

/-- Two units are found where they first stand together. -/
theorem hidden_pair {a : List α} {d : α} (b : List α) (h : Apart d (a ++ b.take 1)) :
    Hidden [d, d] b a := by
  induction a with
  | nil => trivial
  | cons c a ih =>
    refine ⟨fun hpre => ?_, ih ?_⟩
    · obtain ⟨hc, hrest⟩ := List.cons_prefix_cons.mp hpre
      obtain ⟨t, ht⟩ := hrest
      -- the next unit is the first one of `a`, or of `b`
      cases a with
      | nil =>
        cases b with
        | nil => exact absurd ht (by simp)
        | cons e b =>
          obtain ⟨he, -⟩ := List.cons.inj ht
          exact (List.isChain_cons_cons.mp h).1 ⟨hc.symm, he.symm⟩
      | cons e a =>
        obtain ⟨he, -⟩ := List.cons.inj ht
        exact (List.isChain_cons_cons.mp h).1 ⟨hc.symm, he.symm⟩
    · exact List.IsChain.tail h

theorem apart_of_not_mem {d : α} {s : List α} (h : d ∉ s) : Apart d s := by
  induction s with
  | nil => exact List.isChain_nil
  | cons c s ih =>
    have hs := ih fun hmem => h (List.mem_cons_of_mem c hmem)
    cases s with
    | nil => exact List.isChain_singleton c
    | cons e s =>
      refine List.isChain_cons_cons.mpr ⟨fun hd => h ?_, hs⟩
      rw [← hd.1]
      exact List.mem_cons_self

theorem apart_append {d : α} {s t : List α} (hs : Apart d s) (ht : Apart d t)
    (h : s.getLast? ≠ some d ∨ t.head? ≠ some d) : Apart d (s ++ t) := by
  refine List.isChain_append.mpr ⟨hs, ht, fun x hx y hy hd => ?_⟩
  rw [hd.1] at hx
  rw [hd.2] at hy
  exact h.elim (fun hs => hs hx) fun ht => ht hy

/-- Texts put together with `d`. -/
theorem apart_joined {d : α} {s t : List α} (hs : d ∉ s) (ht : Apart d t)
    (h : t.head? ≠ some d) : Apart d (s ++ d :: t) := by
  have hcons : Apart d (d :: t) :=
    apart_append (List.isChain_singleton d) ht (.inr h)
  exact apart_append (apart_of_not_mem hs) hcons
    (.inl fun hlast => hs (List.mem_of_getLast? hlast))

theorem head?_append_ne {d : α} {s : List α} (t : List α) (hne : s ≠ []) (hs : d ∉ s) :
    (s ++ t).head? ≠ some d := by
  obtain ⟨c, s, rfl⟩ := List.exists_cons_of_ne_nil hne
  rintro ⟨rfl⟩
  exact hs List.mem_cons_self

/-- Only empty parts at the end are dropped. -/
theorem rdropWhile_append_cons {p : α → Bool} {b : α} (hb : p b = false) (l rest : List α) :
    ∃ rest', (l ++ b :: rest).rdropWhile p = l ++ b :: rest' := by
  induction rest using List.reverseRecOn with
  | nil => exact ⟨[], List.rdropWhile_concat_neg p l b (by simp [hb])⟩
  | append_singleton rest x ih =>
    rw [← List.cons_append, ← List.append_assoc, List.rdropWhile_concat]
    split
    · exact ih
    · exact ⟨rest ++ [x], List.append_assoc _ _ _⟩

theorem mem_of_mem_rdropWhile {p : α → Bool} {l : List α} {x : α} (h : x ∈ l.rdropWhile p) :
    x ∈ l := by
  have hrev : x ∈ l.reverse.dropWhile p := List.mem_reverse.mp h
  exact List.mem_reverse.mp ((List.dropWhile_suffix p).subset hrev)

theorem dropWhile_append_eq {p : α → Bool} {a s : List α} (ha : ∀ c ∈ a, p c = true)
    (hs : ∀ c ∈ s.head?, p c = false) : (a ++ s).dropWhile p = s := by
  rw [List.dropWhile_append_of_pos ha]
  cases s with
  | nil => rfl
  | cons c s => exact List.dropWhile_cons_of_neg (by simp [hs c rfl])

theorem rdropWhile_append_eq {p : α → Bool} {s b : List α} (hb : ∀ c ∈ b, p c = true)
    (hs : ∀ c ∈ s.getLast?, p c = false) : (s ++ b).rdropWhile p = s := by
  have hrev : (b.reverse ++ s.reverse).dropWhile p = s.reverse :=
    dropWhile_append_eq (fun c hc => hb c (List.mem_reverse.mp hc))
      (fun c hc => hs c (List.head?_reverse ▸ hc))
  rw [List.rdropWhile, List.reverse_append, hrev, List.reverse_reverse]

/-- Lines that end in a separator, and a last one that does not. -/
theorem flatMap_append_eq_intercalate (d : α) (ps : List (List α)) (p : List α) :
    ps.flatMap (· ++ [d]) ++ p = [d].intercalate (ps ++ [p]) := by
  induction ps with
  | nil => simp
  | cons q ps ih =>
    obtain ⟨r, rs, hrs⟩ : ∃ r rs, ps ++ [p] = r :: rs := by
      cases ps with
      | nil => exact ⟨p, [], rfl⟩
      | cons r rs => exact ⟨r, rs ++ [p], rfl⟩
    rw [List.cons_append, hrs, List.intercalate_cons_cons, ← hrs, ← ih]
    simp

variable [DecidableEq α]

/-- The parts between the occurrences of `sep`, once `skip` units are passed over. -/
def piecesFrom (sep : List α) : Nat → List α → List (List α)
  | _, [] => [[]]
  | skip + 1, _ :: t => piecesFrom sep skip t
  | 0, c :: t =>
    if sep.isPrefixOf (c :: t) then [] :: piecesFrom sep (sep.length - 1) t
    else (piecesFrom sep 0 t).modifyHead (c :: ·)

def pieces (sep s : List α) : List (List α) := piecesFrom sep 0 s

/-- `String.replace`: all occurrences, from left to right. -/
def replace (old new s : List α) : List α := new.intercalate (pieces old s)

/-- `String.split` for a pattern that stands for itself: empty parts at the end are dropped,
unless the pattern does not occur at all. -/
def split (sep s : List α) : List (List α) :=
  match pieces sep s with
  | [p] => [p]
  | ps => ps.rdropWhile List.isEmpty

theorem piecesFrom_length_append (sep x b : List α) :
    piecesFrom sep x.length (x ++ b) = pieces sep b := by
  induction x with
  | nil => rfl
  | cons c x ih =>
    rw [List.length_cons, List.cons_append, piecesFrom]
    exact ih

/-- There is always a first piece. -/
theorem exists_piecesFrom (sep : List α) (skip : Nat) (s : List α) :
    ∃ p ps, piecesFrom sep skip s = p :: ps := by
  induction s generalizing skip with
  | nil =>
    cases skip with
    | zero => exact ⟨[], [], rfl⟩
    | succ skip => exact ⟨[], [], rfl⟩
  | cons c s ih =>
    cases skip with
    | zero =>
      rw [piecesFrom]
      split
      · exact ⟨[], _, rfl⟩
      · obtain ⟨p, ps, hps⟩ := ih 0
        rw [hps]
        exact ⟨c :: p, ps, rfl⟩
    | succ skip => exact ih skip

theorem exists_pieces (sep s : List α) : ∃ p ps, pieces sep s = p :: ps :=
  exists_piecesFrom sep 0 s

theorem pieces_cons_of_hidden {sep t : List α} {c : α} (h : ¬ sep <+: c :: t) :
    pieces sep (c :: t) = (pieces sep t).modifyHead (c :: ·) := by
  rw [pieces, piecesFrom, if_neg (by simpa using h)]
  rfl

/-- **A text is cut at the first occurrence.** -/
theorem pieces_append {sep a : List α} (b : List α) (hsep : sep ≠ [])
    (h : Hidden sep (sep ++ b) a) : pieces sep (a ++ (sep ++ b)) = a :: pieces sep b := by
  induction a with
  | nil =>
    obtain ⟨d, x, rfl⟩ := List.exists_cons_of_ne_nil hsep
    have hpre : (d :: x).isPrefixOf (d :: (x ++ b)) = true := by simp
    rw [List.nil_append, List.cons_append, pieces, piecesFrom, if_pos hpre]
    exact congrArg _ (piecesFrom_length_append (d :: x) x b)
  | cons c a ih =>
    have hc : ¬ sep <+: c :: (a ++ (sep ++ b)) := h.1
    rw [List.cons_append, pieces_cons_of_hidden hc, ih h.2]
    rfl

/-- What stands before all occurrences belongs to the first piece. -/
theorem pieces_append_left {sep a b : List α} (h : Hidden sep b a) :
    pieces sep (a ++ b) = (pieces sep b).modifyHead (a ++ ·) := by
  induction a with
  | nil => cases h : pieces sep b <;> exact h
  | cons c a ih =>
    have hc : ¬ sep <+: c :: (a ++ b) := h.1
    rw [List.cons_append, pieces_cons_of_hidden hc, ih h.2, List.modifyHead_modifyHead]
    rfl

/-- A text without occurrences is one piece. -/
theorem pieces_eq_singleton {sep a : List α} (h : Hidden sep [] a) : pieces sep a = [a] := by
  induction a with
  | nil => rfl
  | cons c a ih =>
    have hc := h.1
    rw [List.append_nil] at hc
    rw [pieces_cons_of_hidden hc, ih h.2]
    rfl

/-! A separator of one unit. -/

theorem pieces_singleton_cons (d c : α) (s : List α) :
    pieces [d] (c :: s) =
      if c = d then [] :: pieces [d] s else (pieces [d] s).modifyHead (c :: ·) := by
  rw [pieces, piecesFrom]
  by_cases hc : c = d
  · rw [if_pos hc, if_pos (by simp [hc])]
    rfl
  · rw [if_neg hc, if_neg (by simpa using fun h => hc h.symm)]
    rfl

theorem pieces_singleton_append (d : α) (a t : List α) :
    pieces [d] (a ++ d :: t) = pieces [d] a ++ pieces [d] t := by
  induction a with
  | nil => rw [List.nil_append, pieces_singleton_cons, if_pos rfl]; rfl
  | cons c a ih =>
    obtain ⟨p, ps, hps⟩ := exists_pieces [d] a
    rw [List.cons_append, pieces_singleton_cons, pieces_singleton_cons, ih, hps]
    split
    · rfl
    · rfl

theorem pieces_singleton_of_not_mem {d : α} {a : List α} (ha : d ∉ a) : pieces [d] a = [a] :=
  pieces_eq_singleton (hidden_cons [] [] ha)

theorem pieces_singleton_joined {d : α} {a : List α} (ha : d ∉ a) (t : List α) :
    pieces [d] (a ++ d :: t) = a :: pieces [d] t := by
  rw [pieces_singleton_append, pieces_singleton_of_not_mem ha]
  rfl

/-- Whatever is not a separator is in one of the pieces. -/
theorem exists_mem_pieces {d c : α} {s : List α} (hc : c ∈ s) (hne : c ≠ d) :
    ∃ p ∈ pieces [d] s, c ∈ p := by
  induction s with
  | nil => exact absurd hc List.not_mem_nil
  | cons x s ih =>
    obtain ⟨p, ps, hps⟩ := exists_pieces [d] s
    rw [pieces_singleton_cons, hps]
    rw [hps] at ih
    split
    · rename_i hx
      have hs : c ∈ s := (List.mem_cons.mp hc).resolve_left fun h => hne (h.trans hx)
      obtain ⟨q, hq, hcq⟩ := ih hs
      exact ⟨q, List.mem_cons_of_mem _ hq, hcq⟩
    · rcases List.mem_cons.mp hc with rfl | hs
      · exact ⟨c :: p, List.mem_cons_self, List.mem_cons_self⟩
      · obtain ⟨q, hq, hcq⟩ := ih hs
        rcases List.mem_cons.mp hq with rfl | hq
        · exact ⟨x :: q, List.mem_cons_self, List.mem_cons_of_mem x hcq⟩
        · exact ⟨q, List.mem_cons_of_mem _ hq, hcq⟩

/-- The separator is in none of the pieces. -/
theorem not_mem_of_mem_pieces {d : α} {s p : List α} (hp : p ∈ pieces [d] s) : d ∉ p := by
  induction s generalizing p with
  | nil =>
    rw [List.mem_singleton.mp hp]
    exact List.not_mem_nil
  | cons c s ih =>
    obtain ⟨q, qs, hqs⟩ := exists_pieces [d] s
    rw [pieces_singleton_cons, hqs] at hp
    rw [hqs] at ih
    split at hp
    · rcases List.mem_cons.mp hp with rfl | hp
      · exact List.not_mem_nil
      · exact ih hp
    · rename_i hc
      rcases List.mem_cons.mp hp with rfl | hp
      · intro hd
        rcases List.mem_cons.mp hd with hdc | hdq
        · exact hc hdc.symm
        · exact ih List.mem_cons_self hdq
      · exact ih (List.mem_cons_of_mem _ hp)

theorem mem_pieces_of_mem_split {sep s p : List α} (hp : p ∈ split sep s) : p ∈ pieces sep s := by
  unfold split at hp
  split at hp
  · rename_i q hq
    exact hq ▸ hp
  · exact mem_of_mem_rdropWhile hp

theorem split_of_pieces {sep s b : List α} {l rest : List (List α)}
    (h : pieces sep s = l ++ b :: rest) (hb : b ≠ []) :
    ∃ rest', split sep s = l ++ b :: rest' := by
  unfold split
  split
  · rename_i p hp
    exact ⟨rest, hp.symm.trans h⟩
  · rw [h]
    exact rdropWhile_append_cons (by simpa using hb) l rest

/-- Parts that are put together are cut apart again. -/
theorem pieces_intercalate {d : α} {ps : List (List α)} (hps : ∀ p ∈ ps, d ∉ p) (hne : ps ≠ []) :
    pieces [d] ([d].intercalate ps) = ps := by
  induction ps with
  | nil => exact absurd rfl hne
  | cons p ps ih =>
    obtain ⟨hp, hps⟩ := List.forall_mem_cons.mp hps
    cases ps with
    | nil => rw [List.intercalate_singleton, pieces_singleton_of_not_mem hp]
    | cons q ps =>
      rw [List.intercalate_cons_cons, List.append_assoc, List.singleton_append,
        pieces_singleton_joined hp, ih hps (List.cons_ne_nil q ps)]

theorem split_intercalate {d : α} {ps : List (List α)} (hps : ∀ p ∈ ps, d ∉ p ∧ p ≠ [])
    (hne : ps ≠ []) : split [d] ([d].intercalate ps) = ps := by
  have hpieces := pieces_intercalate (fun p hp => (hps p hp).1) hne
  unfold split
  rw [hpieces]
  split
  · rfl
  · refine List.rdropWhile_eq_self_iff.mpr fun _ => ?_
    rw [List.isEmpty_iff]
    exact (hps _ (List.getLast_mem _)).2

/-- Parts that each end in a separator. -/
theorem split_lines {d : α} {ps : List (List α)} (hps : ∀ p ∈ ps, d ∉ p ∧ p ≠ [])
    (hne : ps ≠ []) : split [d] (ps.flatMap (· ++ [d])) = ps := by
  have hjoined := flatMap_append_eq_intercalate d ps []
  rw [List.append_nil] at hjoined
  have hpieces : pieces [d] (ps.flatMap (· ++ [d])) = ps ++ [[]] := by
    rw [hjoined]
    refine pieces_intercalate (fun p hp => ?_) (by simp)
    rcases List.mem_append.mp hp with hp | hp
    · exact (hps p hp).1
    · rw [List.mem_singleton.mp hp]
      exact List.not_mem_nil
  -- only the empty part behind the last separator is dropped
  have hdrop : (ps ++ [[]]).rdropWhile List.isEmpty = ps := by
    rw [List.rdropWhile_concat_pos _ _ _ rfl]
    refine List.rdropWhile_eq_self_iff.mpr fun hne => ?_
    rw [List.isEmpty_iff]
    exact (hps _ (List.getLast_mem _)).2
  unfold split
  rw [hpieces]
  split
  · rename_i p hp
    have hlen := congrArg List.length hp
    rw [List.length_append] at hlen
    have hpos := List.length_pos_iff.mpr hne
    simp only [List.length_cons, List.length_nil] at hlen
    omega
  · exact hdrop

/-- Two parts, of which the second may be empty. -/
theorem split_pair {d : α} {a b : List α} (ha : d ∉ a) (hb : d ∉ b) (hne : a ≠ []) :
    split [d] (a ++ d :: b) = if b = [] then [a] else [a, b] := by
  have hpieces : pieces [d] (a ++ d :: b) = [a, b] := by
    rw [pieces_singleton_joined ha, pieces_singleton_of_not_mem hb]
  unfold split
  rw [hpieces]
  show [a, b].rdropWhile List.isEmpty = _
  have hconcat : [a, b] = [a] ++ [b] := rfl
  rw [hconcat, List.rdropWhile_concat]
  by_cases hempty : b = []
  · rw [if_pos (by simpa using hempty), if_pos hempty]
    exact List.rdropWhile_eq_self_iff.mpr fun _ => by simpa using hne
  · rw [if_neg (by simpa using hempty), if_neg hempty]

/-! ### Places -/

/-- -1 if the unit does not occur. -/
def indexOf (c : α) (s : List α) : Int := (s.idxOf? c).elim (-1) fun i => (i : Int)

def lastIndexOf (c : α) (s : List α) : Int :=
  (s.reverse.idxOf? c).elim (-1) fun i => (s.length : Int) - 1 - i

omit [DecidableEq α] in
/-- `substring(b, e)`, which throws if the places are out of order. -/
def substring (s : List α) (b e : Int) : Option (List α) :=
  if 0 ≤ b ∧ b ≤ e ∧ e ≤ s.length then some ((s.drop b.toNat).take (e - b).toNat) else none

theorem idxOf?_append {a b : List α} {c : α} (h : c ∉ a) :
    (a ++ c :: b).idxOf? c = some a.length := by
  induction a with
  | nil => simp [List.idxOf?_cons]
  | cons x a ih =>
    have hx : (x == c) = false := by
      rw [beq_eq_false_iff_ne]
      rintro rfl
      exact h List.mem_cons_self
    rw [List.cons_append, List.idxOf?_cons, hx, ih fun hmem => h (List.mem_cons_of_mem x hmem)]
    rfl

theorem indexOf_append {a b : List α} {c : α} (h : c ∉ a) :
    indexOf c (a ++ c :: b) = a.length := by
  rw [indexOf, idxOf?_append h]
  rfl

theorem lastIndexOf_append {a b : List α} {c : α} (h : c ∉ b) :
    lastIndexOf c (a ++ c :: b) = a.length := by
  have hrev : (a ++ c :: b).reverse = b.reverse ++ c :: a.reverse := by simp
  rw [lastIndexOf, hrev, idxOf?_append (by simpa using h)]
  simp only [Option.elim_some, List.length_append, List.length_cons, List.length_reverse]
  omega

omit [DecidableEq α] in
theorem substring_append {s : List α} (a b c : List α) {i j : Int} (hs : s = a ++ (b ++ c))
    (hi : i = a.length) (hj : j = a.length + b.length) : substring s i j = some b := by
  have hin : 0 ≤ i ∧ i ≤ j ∧ j ≤ s.length := by
    rw [hs, List.length_append, List.length_append]
    omega
  have hstart : i.toNat = a.length := by omega
  have hlen : (j - i).toNat = b.length := by omega
  rw [substring, if_pos hin, hlen, hstart, hs, List.drop_left, List.take_left]

omit [DecidableEq α] in
theorem le_of_substring {s t : List α} {b e : Int} (h : substring s b e = some t) :
    0 ≤ b ∧ b ≤ e ∧ e ≤ s.length := by
  unfold substring at h
  split at h
  · assumption
  · exact absurd h (by simp)

theorem exists_indexOf {c : α} {s : List α} (h : 0 ≤ indexOf c s) :
    ∃ a b, s = a ++ c :: b ∧ c ∉ a := by
  have hmem : c ∈ s := by
    by_contra hno
    rw [indexOf, List.idxOf?_eq_none_iff.mpr hno] at h
    exact absurd h (by decide)
  exact List.eq_append_cons_of_mem hmem

theorem exists_lastIndexOf {c : α} {s : List α} (h : 0 ≤ lastIndexOf c s) :
    ∃ a b, s = a ++ c :: b ∧ c ∉ b := by
  have hmem : c ∈ s.reverse := by
    by_contra hno
    rw [lastIndexOf, List.idxOf?_eq_none_iff.mpr hno] at h
    exact absurd h (by simp)
  obtain ⟨b, a, hs, hb⟩ := List.eq_append_cons_of_mem hmem
  refine ⟨a.reverse, b.reverse, ?_, by rwa [List.mem_reverse]⟩
  rw [← List.reverse_reverse s, hs]
  simp

omit [DecidableEq α] in
/-- Of two places in a text, the second stands behind the first. -/
theorem exists_between {a r f k : List α} {c d : α} (h : a ++ c :: r = f ++ d :: k)
    (hlt : a.length < f.length) : ∃ w, f = a ++ c :: w ∧ r = w ++ d :: k := by
  obtain ⟨w, hf, hr⟩ | ⟨w, ha, -⟩ := List.append_eq_append_iff.mp h
  · cases w with
    | nil =>
      rw [hf, List.append_nil] at hlt
      exact absurd hlt (Nat.lt_irrefl _)
    | cons x w =>
      obtain ⟨rfl, hrest⟩ := List.cons.inj hr
      exact ⟨w, hf, hrest⟩
  · rw [ha, List.length_append] at hlt
    omega

/-! ### Units -/

/-- `trim` takes off the units up to the space. -/
def trim (s : Json.Text) : Json.Text :=
  (s.dropWhile (· ≤ 0x20)).rdropWhile (· ≤ 0x20)

theorem mem_of_mem_trim {s : Json.Text} {c : UInt16} (h : c ∈ trim s) : c ∈ s :=
  (List.dropWhile_suffix _).subset (mem_of_mem_rdropWhile h)

/-- What stands between white space. -/
theorem trim_append {a s b : Json.Text} (ha : ∀ c ∈ a, c ≤ 0x20) (hb : ∀ c ∈ b, c ≤ 0x20)
    (hhead : ∀ c ∈ s.head?, ¬ c ≤ 0x20) (hlast : ∀ c ∈ s.getLast?, ¬ c ≤ 0x20) :
    trim (a ++ (s ++ b)) = s := by
  have hspace : ∀ {t : Json.Text}, (∀ c ∈ t, c ≤ 0x20) → ∀ c ∈ t, decide (c ≤ 0x20) = true :=
    fun h c hc => decide_eq_true (h c hc)
  unfold trim
  cases s with
  | nil =>
    rw [List.nil_append, List.dropWhile_append_of_pos (hspace ha),
      List.dropWhile_eq_nil_iff.mpr (hspace hb)]
    rfl
  | cons c s =>
    have hfirst : ∀ x ∈ (c :: s ++ b).head?, decide (x ≤ 0x20) = false :=
      fun x hx => decide_eq_false (hhead x hx)
    rw [dropWhile_append_eq (hspace ha) hfirst]
    exact rdropWhile_append_eq (hspace hb) fun x hx => decide_eq_false (hlast x hx)

/-! ### Numbers

`Integer.parseInt` asks `Character.digit`, which knows the digits of other scripts besides the
ASCII ones. -/

/-- What `Character.digit` gives in base 10. -/
structure Digits where
  value : UInt16 → Option Nat
  lt : ∀ {c d}, value c = some d → d < 10
  ascii : ∀ {c}, Json.isDigit c = true → value c = some (c.toNat - 0x30)
  minus : value 0x2D = none
  plus : value 0x2B = none

def asciiValue (c : UInt16) : Option Nat :=
  if Json.isDigit c = true then some (c.toNat - 0x30) else none

theorem asciiValue_lt {c : UInt16} {d : Nat} (h : asciiValue c = some d) : d < 10 := by
  unfold asciiValue at h
  split at h
  · rename_i hc
    obtain rfl := Option.some.inj h
    rw [Json.isDigit, Bool.and_eq_true, decide_eq_true_iff, decide_eq_true_iff,
      UInt16.le_iff_toNat_le, UInt16.le_iff_toNat_le] at hc
    have hlast : (0x39 : UInt16).toNat = 0x39 := rfl
    omega
  · cases h

/-- The ASCII digits only. -/
def Digits.ofAscii : Digits where
  value := asciiValue
  lt := asciiValue_lt
  ascii := fun h => if_pos h
  minus := rfl
  plus := rfl

/-- The sign of a number, and what is behind it. -/
def signed : Json.Text → Bool × Json.Text
  | [] => (false, [])
  | c :: t => if c = 0x2D then (true, t) else if c = 0x2B then (false, t) else (false, c :: t)

/-- The number of a list of digits. -/
def natOfDigits (ds : List Nat) : Nat := ds.foldl (fun n d => 10 * n + d) 0

/-- `Integer.parseInt`, with the digits of `Character.digit`. -/
def parseIntOf (digits : Digits) (s : Json.Text) : Option Int32 := do
  let ds ← (signed s).2.mapM digits.value
  let v : Int := if (signed s).1 then -(natOfDigits ds : Int) else natOfDigits ds
  if ds ≠ [] ∧ -2 ^ 31 ≤ v ∧ v < 2 ^ 31 then some (Int32.ofInt v) else none

/-- A decimal `int`: a sign or none, and one digit at least. -/
def DecimalInt (digits : Digits) (s : Json.Text) (i : Int32) : Prop :=
  ∃ sign cs ds, s = sign ++ cs ∧ cs.map digits.value = ds.map some ∧ ds ≠ [] ∧
    (sign = [] ∧ i.toInt = natOfDigits ds ∨ sign = [0x2B] ∧ i.toInt = natOfDigits ds ∨
      sign = [0x2D] ∧ i.toInt = -(natOfDigits ds : Int))

omit [DecidableEq α] in
theorem mapM_eq_some_iff {β : Type*} {f : α → Option β} {l : List α} {r : List β} :
    l.mapM f = some r ↔ l.map f = r.map some := by
  induction l generalizing r with
  | nil => cases r <;> simp
  | cons x l ih =>
    rw [List.mapM_cons]
    cases hx : f x with
    | none => cases r <;> simp [hx]
    | some y =>
      cases hl : l.mapM f with
      | none =>
        cases r with
        | nil => simp
        | cons z r =>
          have hno : l.map f ≠ r.map some := fun h => by simp [ih.mpr h] at hl
          simp [hx, hno]
      | some ys =>
        have hys : l.map f = ys.map some := ih.mp hl
        cases r with
        | nil => simp
        | cons z r => simp [hx, hys, (Option.some_injective β).list_map.eq_iff]

theorem toInt_eq_iff {i : Int32} {v : Int} :
    i.toInt = v ↔ (-2 ^ 31 ≤ v ∧ v < 2 ^ 31) ∧ Int32.ofInt v = i := by
  constructor
  · rintro rfl
    exact ⟨⟨i.le_toInt, i.toInt_lt⟩, Int32.ofInt_toInt i⟩
  · rintro ⟨⟨hlo, hhi⟩, rfl⟩
    exact Int32.toInt_ofInt_of_le hlo hhi

theorem parseIntOf_eq_some {digits : Digits} {s : Json.Text} {i : Int32} :
    parseIntOf digits s = some i ↔ ∃ ds, (signed s).2.map digits.value = ds.map some ∧ ds ≠ [] ∧
      i.toInt = if (signed s).1 then -(natOfDigits ds : Int) else natOfDigits ds := by
  simp only [parseIntOf, Option.bind_eq_bind, Option.bind_eq_some_iff, mapM_eq_some_iff,
    toInt_eq_iff]
  refine exists_congr fun ds => and_congr_right fun _ => ?_
  by_cases hne : ds = []
  · simp [hne]
  · simp [hne, and_assoc]

/-- A digit is not a sign. -/
theorem signed_of_digits {digits : Digits} {cs : Json.Text} {ds : List Nat}
    (h : cs.map digits.value = ds.map some) : signed cs = (false, cs) := by
  cases cs with
  | nil => rfl
  | cons c t =>
    cases ds with
    | nil => exact absurd h (by simp)
    | cons d ds =>
      obtain ⟨hc, -⟩ := List.cons.inj h
      have hminus : c ≠ 0x2D := by
        rintro rfl
        exact absurd (hc.symm.trans digits.minus) (by simp)
      have hplus : c ≠ 0x2B := by
        rintro rfl
        exact absurd (hc.symm.trans digits.plus) (by simp)
      rw [signed, if_neg hminus, if_neg hplus]

/-- **The texts that are read as an `int`.** -/
theorem parseIntOf_eq_some_iff {digits : Digits} {s : Json.Text} {i : Int32} :
    parseIntOf digits s = some i ↔ DecimalInt digits s i := by
  rw [parseIntOf_eq_some]
  constructor
  · rintro ⟨ds, hds, hne, hi⟩
    cases s with
    | nil => exact ⟨[], [], ds, rfl, hds, hne, .inl ⟨rfl, hi⟩⟩
    | cons c t =>
      by_cases hminus : c = 0x2D
      · subst hminus
        exact ⟨[0x2D], t, ds, rfl, hds, hne, .inr (.inr ⟨rfl, hi⟩)⟩
      by_cases hplus : c = 0x2B
      · subst hplus
        exact ⟨[0x2B], t, ds, rfl, hds, hne, .inr (.inl ⟨rfl, hi⟩)⟩
      · rw [signed, if_neg hminus, if_neg hplus] at hds hi
        exact ⟨[], c :: t, ds, rfl, hds, hne, .inl ⟨rfl, hi⟩⟩
  · rintro ⟨sign, cs, ds, rfl, hds, hne, ⟨rfl, hi⟩ | ⟨rfl, hi⟩ | ⟨rfl, hi⟩⟩
    · rw [List.nil_append, signed_of_digits hds]
      exact ⟨ds, hds, hne, hi⟩
    · exact ⟨ds, hds, hne, hi⟩
    · exact ⟨ds, hds, hne, hi⟩

theorem natOf_eq_natOfDigits (cs : Json.Text) :
    Json.natOf cs = natOfDigits (cs.map fun c => c.toNat - 0x30) := by
  rw [Json.natOf, natOfDigits, List.foldl_map]

/-- The decimal text of an `int`. -/
theorem decimalInt_decimal (digits : Digits) (i : Int32) :
    DecimalInt digits (Json.decimal i.toInt) i := by
  set cs := Json.decimalNat i.toInt.natAbs with hcs
  have hvalues : cs.map digits.value = (cs.map fun c => c.toNat - 0x30).map some := by
    rw [List.map_map]
    exact List.map_congr_left fun c hc => digits.ascii (Json.isDigit_of_mem_decimalNat hc)
  have hne : cs.map (fun c => c.toNat - 0x30) ≠ [] := by
    obtain ⟨c, ds, hds, -⟩ := Json.decimalNat_head i.toInt.natAbs
    simp [hcs, hds]
  have hnat : natOfDigits (cs.map fun c => c.toNat - 0x30) = i.toInt.natAbs := by
    rw [← natOf_eq_natOfDigits, hcs, Json.natOf_decimalNat]
  unfold Json.decimal
  split
  · exact ⟨[0x2D], cs, _, rfl, hvalues, hne, .inr (.inr ⟨rfl, by omega⟩)⟩
  · exact ⟨[], cs, _, rfl, hvalues, hne, .inl ⟨rfl, by omega⟩⟩

/-- `Integer.parseInt`, on texts whose digits are ASCII. -/
def parseInt : Json.Text → Option Int32 := parseIntOf .ofAscii

/-- **An `int` is read back from its decimal text.** -/
theorem parseInt_decimal (i : Int32) : parseInt (Json.decimal i.toInt) = some i :=
  parseIntOf_eq_some_iff.mpr (decimalInt_decimal .ofAscii i)

end JavaString
