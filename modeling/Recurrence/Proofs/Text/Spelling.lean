import Mathlib.Data.List.TakeWhile
import Recurrence.Proofs.Text.Numeral
import Recurrence.Text.Blank
import Recurrence.Text.Split

/-!
# What trimming and upper case do not tell apart

White space at the ends of a text is lost when it is trimmed (`trim_pad`), the pieces of a text lose
the white space at their ends (`map_trim_splitOn_pad`), and blank texts do not count (`nonblank`).
Two texts are `SameLetters` if they differ in the case of ASCII letters only; trimming, cutting and
splitting respect that.
-/

namespace Recurrence.Text

set_option autoImplicit false

/-- A text of white space only. -/
def IsSpace (cs : List Char) : Prop := ∀ c ∈ cs, isBlank c = true

instance (cs : List Char) : Decidable (IsSpace cs) :=
  decidable_of_iff (cs.all isBlank = true) List.all_eq_true

section Spaces

variable {sep : Char} {a b cs ds : List Char}

theorem trimEnd_append_space (hb : IsSpace b) : trimEnd (cs ++ b) = trimEnd cs := by
  have hr : ∀ c ∈ b.reverse, isBlank c = true := fun c hc => hb c (List.mem_reverse.mp hc)
  rw [trimEnd, List.reverse_append, List.dropWhile_append_of_pos hr]
  rfl

theorem trim_space_append (ha : IsSpace a) : trim (a ++ cs) = trim cs := by
  rw [trim, List.dropWhile_append_of_pos ha]
  rfl

theorem dropWhile_append_cons (hs : isBlank sep = false) :
    (cs ++ sep :: ds).dropWhile isBlank = cs.dropWhile isBlank ++ sep :: ds := by
  rw [List.dropWhile_append]
  split
  · next h =>
    rw [List.isEmpty_iff.mp h, List.dropWhile_cons_of_neg (by simp [hs])]
    rfl
  · rfl

theorem trimEnd_append_cons (hs : isBlank sep = false) :
    trimEnd (cs ++ sep :: ds) = cs ++ sep :: trimEnd ds := by
  rw [trimEnd, List.reverse_append, List.reverse_cons, List.append_assoc, List.singleton_append,
    dropWhile_append_cons hs, List.reverse_append, List.reverse_cons, List.reverse_reverse,
    List.append_assoc, List.singleton_append]
  rfl

/-- Trimming leaves everything around a character that is not white space. -/
theorem trim_append_cons (hs : isBlank sep = false) :
    trim (cs ++ sep :: ds) = cs.dropWhile isBlank ++ sep :: trimEnd ds := by
  rw [trim, dropWhile_append_cons hs, trimEnd_append_cons hs]

theorem exists_space_dropWhile (cs : List Char) : ∃ a, IsSpace a ∧ cs = a ++ cs.dropWhile isBlank :=
  ⟨cs.takeWhile isBlank, fun _ hc => List.mem_takeWhile_imp hc,
    List.takeWhile_append_dropWhile.symm⟩

theorem exists_space_trimEnd (cs : List Char) : ∃ b, IsSpace b ∧ cs = trimEnd cs ++ b := by
  obtain ⟨a, ha, he⟩ := exists_space_dropWhile cs.reverse
  refine ⟨a.reverse, fun c hc => ha c (List.mem_reverse.mp hc), ?_⟩
  rw [trimEnd, ← List.reverse_append, ← he, List.reverse_reverse]

theorem exists_space_trim (cs : List Char) :
    ∃ a b, IsSpace a ∧ IsSpace b ∧ cs = a ++ (trim cs ++ b) := by
  obtain ⟨a, ha, hd⟩ := exists_space_dropWhile cs
  obtain ⟨b, hb, he⟩ := exists_space_trimEnd (cs.dropWhile isBlank)
  exact ⟨a, b, ha, hb, hd.trans (congrArg (a ++ ·) he)⟩

theorem trim_append_space (hb : IsSpace b) : trim (cs ++ b) = trim cs := by
  rw [trim, List.dropWhile_append]
  split
  · next h =>
    rw [trim, List.isEmpty_iff.mp h, List.dropWhile_eq_nil_iff.mpr hb]
  · rw [trimEnd_append_space hb]
    rfl

theorem trim_pad (ha : IsSpace a) (hb : IsSpace b) : trim (a ++ cs ++ b) = trim cs := by
  rw [trim_append_space hb, trim_space_append ha]

theorem trim_eq_nil_iff : trim cs = [] ↔ IsSpace cs := by
  constructor
  · intro h
    obtain ⟨a, b, ha, hb, he⟩ := exists_space_trim cs
    rw [h, List.nil_append] at he
    rw [he]
    intro c hc
    rcases List.mem_append.mp hc with hc | hc
    · exact ha c hc
    · exact hb c hc
  · intro h
    rw [trim, List.dropWhile_eq_nil_iff.mpr h]
    rfl

theorem trim_dropWhile (cs : List Char) : trim (cs.dropWhile isBlank) = trim cs := by
  obtain ⟨a, ha, he⟩ := exists_space_dropWhile cs
  conv => rhs; rw [he, trim_space_append ha]

theorem trim_trimEnd (cs : List Char) : trim (trimEnd cs) = trim cs := by
  obtain ⟨b, hb, he⟩ := exists_space_trimEnd cs
  conv => rhs; rw [he, trim_append_space hb]

theorem mem_of_mem_trim {c : Char} (h : c ∈ trim cs) : c ∈ cs := by
  obtain ⟨a, b, -, -, he⟩ := exists_space_trim cs
  rw [he]
  exact List.mem_append_right a (List.mem_append_left b h)

theorem not_mem_of_isSpace (hs : isBlank sep = false) (ha : IsSpace a) : sep ∉ a := by
  intro h
  rw [ha sep h] at hs
  cases hs

/-- The last piece of one text and the first piece of the next grow together. -/
theorem splitOn_append (sep : Char) (cs ds : List Char) : ∃ init last first rest,
    splitOn sep cs = init ++ [last] ∧ splitOn sep ds = first :: rest ∧
      splitOn sep (cs ++ ds) = init ++ (last ++ first) :: rest := by
  induction cs with
  | nil =>
    obtain ⟨first, rest, hd⟩ := List.exists_cons_of_ne_nil (splitOn_ne_nil sep ds)
    exact ⟨[], [], first, rest, rfl, hd, hd⟩
  | cons c cs ih =>
    obtain ⟨init, last, first, rest, hc, hd, he⟩ := ih
    by_cases h : c = sep
    · refine ⟨[] :: init, last, first, rest, ?_, hd, ?_⟩
      · rw [splitOn, if_pos h, hc]
        rfl
      · rw [List.cons_append, splitOn, if_pos h, he]
        rfl
    · cases init with
      | nil =>
        refine ⟨[], c :: last, first, rest, ?_, hd, ?_⟩
        · rw [splitOn, if_neg h, hc]
          rfl
        · rw [List.cons_append, splitOn, if_neg h, he]
          rfl
      | cons piece init =>
        refine ⟨(c :: piece) :: init, last, first, rest, ?_, hd, ?_⟩
        · rw [splitOn, if_neg h, hc]
          rfl
        · rw [List.cons_append, splitOn, if_neg h, he]
          rfl

theorem splitOn_append_sep (sep : Char) (cs ds : List Char) :
    splitOn sep (cs ++ sep :: ds) = splitOn sep cs ++ splitOn sep ds := by
  obtain ⟨init, last, first, rest, hc, hd, he⟩ := splitOn_append sep cs (sep :: ds)
  rw [splitOn, if_pos rfl, List.cons.injEq] at hd
  rw [he, hc, ← hd.1, ← hd.2, List.append_nil, List.append_assoc, List.singleton_append]

/-- White space at the ends of a text is at the ends of its first and its last piece. -/
theorem map_trim_splitOn_pad (hs : isBlank sep = false) (ha : IsSpace a) (hb : IsSpace b) :
    (splitOn sep (a ++ (cs ++ b))).map trim = (splitOn sep cs).map trim := by
  have hafter : (splitOn sep (cs ++ b)).map trim = (splitOn sep cs).map trim := by
    obtain ⟨init, last, first, rest, hc, hd, he⟩ := splitOn_append sep cs b
    rw [splitOn_of_not_mem (not_mem_of_isSpace hs hb), List.cons.injEq] at hd
    rw [he, hc, ← hd.1, ← hd.2]
    simp only [List.map_append, List.map_cons, List.map_nil, trim_append_space hb]
  obtain ⟨init, last, first, rest, hc, hd, he⟩ := splitOn_append sep a (cs ++ b)
  rw [splitOn_of_not_mem (not_mem_of_isSpace hs ha), List.singleton_eq_append_iff] at hc
  obtain ⟨rfl, hl⟩ | ⟨-, hl⟩ := hc
  · obtain rfl := List.singleton_inj.mp hl
    rw [← hafter, he, hd]
    simp only [List.nil_append, List.map_cons, trim_space_append ha]
  · cases hl

theorem map_trim_splitOn_trim (hs : isBlank sep = false) (cs : List Char) :
    (splitOn sep (trim cs)).map trim = (splitOn sep cs).map trim := by
  obtain ⟨a, b, ha, hb, he⟩ := exists_space_trim cs
  conv => rhs; rw [he, map_trim_splitOn_pad hs ha hb]

end Spaces

/-- The texts that are not blank, without the white space around them. -/
def nonblank (texts : List (List Char)) : List (List Char) := (texts.map trim).filter (· ≠ [])

section Nonblank

variable {t : List Char} {texts : List (List Char)}

theorem nonblank_cons_of_isSpace (h : IsSpace t) : nonblank (t :: texts) = nonblank texts := by
  rw [nonblank, List.map_cons, List.filter_cons_of_neg (by simpa using trim_eq_nil_iff.mpr h)]
  rfl

theorem nonblank_cons_of_ne_nil (h : trim t ≠ []) :
    nonblank (t :: texts) = trim t :: nonblank texts := by
  rw [nonblank, List.map_cons, List.filter_cons_of_pos (by simpa using h)]
  rfl

theorem mem_nonblank {u : List Char} : u ∈ nonblank texts ↔ ∃ t ∈ texts, trim t = u ∧ u ≠ [] := by
  simp only [nonblank, List.mem_filter, List.mem_map, decide_eq_true_eq]
  constructor
  · rintro ⟨⟨t, ht, rfl⟩, hne⟩
    exact ⟨t, ht, rfl, hne⟩
  · rintro ⟨t, ht, rfl, hne⟩
    exact ⟨⟨t, ht, rfl⟩, hne⟩

theorem nonblank_perm {texts' : List (List Char)} (h : texts.Perm texts') :
    (nonblank texts).Perm (nonblank texts') := (h.map trim).filter _

/-- Joined texts are taken apart again, but for blank ones. -/
theorem nonblank_splitOn_intercalate {sep : Char} (h : ∀ t ∈ texts, sep ∉ t) :
    nonblank (splitOn sep ([sep].intercalate texts)) = nonblank texts := by
  cases texts with
  | nil => rfl
  | cons t texts => rw [splitOn_intercalate h (List.cons_ne_nil t texts)]

end Nonblank

/-- The same text but for the case of ASCII letters. -/
def SameLetters (cs ds : List Char) : Prop := cs.map Char.toUpper = ds.map Char.toUpper

section Letters

variable {c d sep : Char} {cs ds : List Char}

theorem toNat_toUpper (c : Char) :
    c.toUpper.toNat = if 97 ≤ c.toNat ∧ c.toNat ≤ 122 then c.toNat - 32 else c.toNat := by
  have hiff : ('a'.val ≤ c.val ∧ c.val ≤ 'z'.val) ↔ 97 ≤ c.toNat ∧ c.toNat ≤ 122 := by
    rw [UInt32.le_iff_toNat_le, UInt32.le_iff_toNat_le]
    rfl
  have hshift : ('A'.val - 'a'.val).toNat = 4294967264 := by decide
  unfold Char.toUpper
  split
  · next h =>
    have hn : 97 ≤ c.val.toNat ∧ c.val.toNat ≤ 122 := hiff.mp h
    rw [if_pos (hiff.mp h)]
    change (c.val + ('A'.val - 'a'.val)).toNat = c.val.toNat - 32
    rw [UInt32.toNat_add, hshift]
    omega
  · next h => rw [if_neg (mt hiff.mpr h)]

theorem isBlank_toUpper (c : Char) : isBlank c.toUpper = isBlank c := by
  simp only [isBlank, toNat_toUpper]
  split
  · rw [Bool.eq_iff_iff]
    simp only [Bool.or_eq_true, Bool.and_eq_true, decide_eq_true_eq]
    omega
  · rfl

theorem isAlpha_iff : c.isAlpha = true ↔
    65 ≤ c.toNat ∧ c.toNat ≤ 90 ∨ 97 ≤ c.toNat ∧ c.toNat ≤ 122 := by
  change (decide ('A'.val ≤ c.val ∧ c.val ≤ 'Z'.val) ||
    decide ('a'.val ≤ c.val) && decide (c.val ≤ 'z'.val)) = true ↔ _
  simp only [Bool.or_eq_true, Bool.and_eq_true, decide_eq_true_eq, UInt32.le_iff_toNat_le]
  rfl

/-- Only a letter is written in two ways. -/
theorem eq_of_toUpper (hd : d.isAlpha = false) (h : c.toUpper = d.toUpper) : c = d := by
  have hn := congrArg Char.toNat h
  rw [Bool.eq_false_iff, ne_eq, isAlpha_iff] at hd
  rw [toNat_toUpper, toNat_toUpper] at hn
  apply Char.toNat_inj.mp
  split at hn <;> split at hn <;> omega

theorem toUpper_of_not_isAlpha (hd : d.isAlpha = false) : d.toUpper = d := by
  rw [Bool.eq_false_iff, ne_eq, isAlpha_iff] at hd
  apply Char.toNat_inj.mp
  rw [toNat_toUpper, if_neg (by omega)]

theorem not_isAlpha_of_isDigit (h : c.isDigit = true) : c.isAlpha = false := by
  have hn := toNat_of_isDigit h
  rw [Bool.eq_false_iff, ne_eq, isAlpha_iff]
  omega

namespace SameLetters

theorem symm (h : SameLetters cs ds) : SameLetters ds cs := Eq.symm h

theorem length_eq (h : SameLetters cs ds) : cs.length = ds.length := by
  simpa using congrArg List.length h

theorem take (h : SameLetters cs ds) (n : Nat) : SameLetters (cs.take n) (ds.take n) := by
  rw [SameLetters, List.map_take, List.map_take, h]

theorem drop (h : SameLetters cs ds) (n : Nat) : SameLetters (cs.drop n) (ds.drop n) := by
  rw [SameLetters, List.map_drop, List.map_drop, h]

theorem eq_nil_iff (h : SameLetters cs ds) : cs = [] ↔ ds = [] := by
  rw [← List.length_eq_zero_iff, h.length_eq, List.length_eq_zero_iff]

/-- Texts without letters are written in one way. -/
theorem eq_of_forall (h : SameLetters cs ds) (hd : ∀ d ∈ ds, d.isAlpha = false) : cs = ds := by
  induction cs generalizing ds with
  | nil => exact (h.eq_nil_iff.mp rfl).symm
  | cons c cs ih =>
    cases ds with
    | nil => exact h.eq_nil_iff.mpr rfl
    | cons d ds =>
      obtain ⟨hcd, hrest⟩ := List.cons.inj h
      rw [eq_of_toUpper (hd d List.mem_cons_self) hcd,
        ih hrest fun e he => hd e (List.mem_cons_of_mem d he)]

theorem mem (h : SameLetters cs ds) (hs : sep.isAlpha = false) (hm : sep ∈ cs) : sep ∈ ds := by
  have hu : sep.toUpper ∈ ds.map Char.toUpper := h ▸ List.mem_map_of_mem hm
  obtain ⟨d, hd, he⟩ := List.mem_map.mp hu
  rwa [eq_of_toUpper hs he] at hd

end SameLetters

theorem map_dropWhile_isBlank (cs : List Char) :
    (cs.map Char.toUpper).dropWhile isBlank = (cs.dropWhile isBlank).map Char.toUpper := by
  rw [List.dropWhile_map]
  have hb : isBlank ∘ Char.toUpper = isBlank := funext isBlank_toUpper
  rw [hb]

theorem trim_map_toUpper (cs : List Char) :
    trim (cs.map Char.toUpper) = (trim cs).map Char.toUpper := by
  rw [trim, trim, trimEnd, trimEnd, map_dropWhile_isBlank, ← List.map_reverse,
    map_dropWhile_isBlank, List.map_reverse]

theorem SameLetters.trim (h : SameLetters cs ds) : SameLetters (trim cs) (trim ds) := by
  rw [SameLetters, ← trim_map_toUpper, ← trim_map_toUpper, h]

/-- Splitting at a separator that is not a letter. -/
theorem splitOn_map_toUpper (hs : sep.isAlpha = false) (cs : List Char) :
    splitOn sep (cs.map Char.toUpper) = (splitOn sep cs).map (List.map Char.toUpper) := by
  induction cs with
  | nil => rfl
  | cons c cs ih =>
    have hc : c.toUpper = sep ↔ c = sep := by
      constructor
      · intro h
        exact eq_of_toUpper hs (h.trans (toUpper_of_not_isAlpha hs).symm)
      · rintro rfl
        exact toUpper_of_not_isAlpha hs
    rw [List.map_cons, splitOn, splitOn, ih]
    by_cases h : c = sep
    · rw [if_pos (hc.mpr h), if_pos h]
      rfl
    · rw [if_neg (mt hc.mp h), if_neg h]
      cases splitOn sep cs <;> rfl

theorem natural?_of_sameLetters (h : SameLetters cs ds) : natural? cs = natural? ds := by
  have heq {as bs : List Char} (h : SameLetters as bs) (hb : bs.all Char.isDigit) : as = bs :=
    h.eq_of_forall fun d hd => not_isAlpha_of_isDigit (List.all_eq_true.mp hb d hd)
  by_cases hd : ds.all Char.isDigit = true
  · rw [heq h hd]
  · by_cases hc : cs.all Char.isDigit = true
    · rw [heq h.symm hc]
    · rw [natural?, natural?, if_neg fun hn => hc hn.2, if_neg fun hn => hd hn.2]

theorem eq_iff_of_toUpper {e : Char} (h : c.toUpper = d.toUpper) (he : e.isAlpha = false) :
    c = e ↔ d = e := by
  constructor
  · rintro rfl
    exact eq_of_toUpper he h.symm
  · rintro rfl
    exact eq_of_toUpper he h

theorem unsigned?_cons (max : Nat) (c : Char) (cs : List Char) : unsigned? max (c :: cs) =
    (if c = '+' then natural? cs else natural? (c :: cs)).filter (· ≤ max) := by
  unfold unsigned?
  split
  · next h =>
    obtain ⟨rfl, rfl⟩ := List.cons.inj h
    rw [if_pos rfl]
  · next h => rw [if_neg fun hc => h cs (congrArg (· :: cs) hc)]

theorem signed?_cons (lo hi : Int) (c : Char) (cs : List Char) : signed? lo hi (c :: cs) =
    (if c = '-' then (natural? cs).map fun n => -(n : Int)
      else (if c = '+' then natural? cs else natural? (c :: cs)).map fun n => (n : Int)).filter
        fun z => lo ≤ z && z ≤ hi := by
  unfold signed?
  split
  · next h =>
    obtain ⟨rfl, rfl⟩ := List.cons.inj h
    rw [if_pos rfl]
  · next h =>
    obtain ⟨rfl, rfl⟩ := List.cons.inj h
    rw [if_neg (by decide), if_pos rfl]
  · next h h' =>
    rw [if_neg fun hc => h cs (congrArg (· :: cs) hc),
      if_neg fun hc => h' cs (congrArg (· :: cs) hc)]

theorem unsigned?_of_sameLetters (max : Nat) (h : SameLetters cs ds) :
    unsigned? max cs = unsigned? max ds := by
  cases cs with
  | nil => rw [h.eq_nil_iff.mp rfl]
  | cons c cs =>
    cases ds with
    | nil => rw [h.eq_nil_iff.mpr rfl]
    | cons d ds =>
      obtain ⟨hcd, hrest⟩ := List.cons.inj h
      simp only [unsigned?_cons, eq_iff_of_toUpper hcd (e := '+') rfl, natural?_of_sameLetters h,
        natural?_of_sameLetters hrest]

theorem signed?_of_sameLetters (lo hi : Int) (h : SameLetters cs ds) :
    signed? lo hi cs = signed? lo hi ds := by
  cases cs with
  | nil => rw [h.eq_nil_iff.mp rfl]
  | cons c cs =>
    cases ds with
    | nil => rw [h.eq_nil_iff.mpr rfl]
    | cons d ds =>
      obtain ⟨hcd, hrest⟩ := List.cons.inj h
      simp only [signed?_cons, eq_iff_of_toUpper hcd (e := '+') rfl,
        eq_iff_of_toUpper hcd (e := '-') rfl, natural?_of_sameLetters h,
        natural?_of_sameLetters hrest]

end Letters

end Recurrence.Text
