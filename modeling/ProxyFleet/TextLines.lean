import Mathlib.Data.List.DropRight
import Mathlib.Data.List.Infix

/-!
# Trimming, lines and cuts of character lists

The string operations that a line-based reader rests on, over arbitrary
lists. A trimmed list starts and ends outside a class of elements. Lines end at
a line feed, which may follow a carriage return.
-/
namespace ProxyFleet.TextLines

/-- What holds of all characters of a text is decided one by one, not over every character
there is. -/
instance decidableForallChar (p : Char → Prop) [DecidablePred p] (t : List Char) :
    Decidable (∀ c ∈ t, p c) :=
  List.decidableBAll p t

section Trimming

variable {α : Type*} (p : α → Bool)

/-- Both ends without the elements of the class. -/
def trim (l : List α) : List α := (l.dropWhile p).rdropWhile p

/-- A list that trimming keeps. -/
structure Trimmed (l : List α) : Prop where
  head : ∀ a ∈ l.head?, p a = false
  last : ∀ a ∈ l.getLast?, p a = false

variable {p}

theorem rdropWhile_eq_self {l : List α} (h : ∀ a ∈ l.getLast?, p a = false) :
    l.rdropWhile p = l := by
  rcases List.eq_nil_or_concat' l with rfl | ⟨l, a, rfl⟩
  · rfl
  · exact List.rdropWhile_concat_neg p l a (by simpa using h a (by simp))

theorem dropWhile_eq_self {l : List α} (h : ∀ a ∈ l.head?, p a = false) : l.dropWhile p = l := by
  cases l with
  | nil => rfl
  | cons a l => exact List.dropWhile_cons_of_neg (by simpa using h a (by simp))

theorem Trimmed.trim_eq {l : List α} (h : Trimmed p l) : trim p l = l := by
  rw [trim, dropWhile_eq_self h.head, rdropWhile_eq_self h.last]

theorem head?_rdropWhile {l : List α} {a : α} (h : a ∈ (l.rdropWhile p).head?) : a ∈ l.head? := by
  obtain ⟨t, ht⟩ := List.rdropWhile_prefix p l
  cases hr : l.rdropWhile p with
  | nil => simp [hr] at h
  | cons b l' =>
    rw [hr] at ht h
    rw [← ht]
    simpa using h

theorem trimmed_trim (l : List α) : Trimmed p (trim p l) := by
  constructor
  · intro a ha
    have hd := head?_rdropWhile ha
    cases hl : l.dropWhile p with
    | nil => simp [hl] at hd
    | cons b l' =>
      have hb := List.head?_dropWhile_not p l
      rw [hl] at hd hb
      obtain rfl : b = a := by simpa using hd
      simpa using hb
  · intro a ha
    have hne : (trim p l) ≠ [] := by
      rintro he
      simp [he] at ha
    have hlast := List.rdropWhile_last_not p (l.dropWhile p) hne
    rw [List.getLast?_eq_some_getLast hne, Option.mem_some_iff] at ha
    rw [← ha]
    exact eq_false_of_ne_true hlast

/-- Trimming a trimmed text changes nothing. -/
@[simp] theorem trim_trim (l : List α) : trim p (trim p l) = trim p l := (trimmed_trim l).trim_eq

theorem trim_append_right (l : List α) {w : List α} (hw : ∀ a ∈ w, p a = true) :
    trim p (l ++ w) = trim p l := by
  have hr : ∀ m : List α, (m ++ w).rdropWhile p = m.rdropWhile p := by
    intro m
    rw [List.rdropWhile, List.rdropWhile, List.reverse_append, List.dropWhile_append_of_pos]
    simpa using hw
  rw [trim, List.dropWhile_append]
  split
  · next he =>
    have hnil : l.dropWhile p = [] := by simpa using he
    have hdrop : w.dropWhile p = [] := by simpa using hw
    rw [hdrop, trim, hnil]
  · rw [hr, trim]

theorem mem_of_mem_trim {l : List α} {a : α} (h : a ∈ trim p l) : a ∈ l :=
  List.dropWhile_subset p ((List.rdropWhile_prefix p _).subset h)

end Trimming

/-- The white space of Unicode. -/
def isWhitespace (c : Char) : Bool :=
  let n := c.toNat
  (9 ≤ n && n ≤ 13) || n = 0x20 || n = 0x85 || n = 0xA0 || n = 0x1680 ||
    (0x2000 ≤ n && n ≤ 0x200A) || n = 0x2028 || n = 0x2029 || n = 0x202F || n = 0x205F ||
    n = 0x3000

/-- Without one carriage return at the end. -/
def stripReturn (line : List Char) : List Char :=
  if line.getLast? = some '\r' then line.dropLast else line

/-- The lines of a text, after the characters read so far of the first one. -/
def linesFrom (read : List Char) : List Char → List (List Char)
  | [] => if read = [] then [] else [read.reverse]
  | c :: text =>
    if c = '\n' then stripReturn read.reverse :: linesFrom [] text else linesFrom (c :: read) text

def lines (text : List Char) : List (List Char) := linesFrom [] text

/-- The lines with a line feed between any two. -/
def joinLines (ls : List (List Char)) : List Char := ['\n'].intercalate ls

/-- A line that a reader of trimmed lines gives back. -/
structure Line (line : List Char) : Prop where
  single : '\n' ∉ line
  trimmed : Trimmed isWhitespace line
  nonempty : line ≠ []

theorem Line.stripReturn_eq {line : List Char} (h : Line line) : stripReturn line = line := by
  refine if_neg fun hr => ?_
  exact absurd (h.trimmed.last '\r' hr) (by decide)

theorem linesFrom_append {line : List Char} (h : '\n' ∉ line) (read text : List Char) :
    linesFrom read (line ++ text) = linesFrom (line.reverse ++ read) text := by
  induction line generalizing read with
  | nil => rfl
  | cons c line ih =>
    rw [List.mem_cons, not_or] at h
    rw [List.cons_append, linesFrom, if_neg (Ne.symm h.1), ih h.2]
    simp

theorem joinLines_cons_cons (l m : List Char) (ls : List (List Char)) :
    joinLines (l :: m :: ls) = l ++ '\n' :: joinLines (m :: ls) := by
  simp [joinLines, List.intercalate]

@[simp] theorem joinLines_singleton (l : List Char) : joinLines [l] = l := by
  simp [joinLines, List.intercalate]

/-- Reading gives the lines back that were joined, with or without a final line feed. -/
theorem lines_joinLines {ls : List (List Char)} (h : ∀ l ∈ ls, Line l) (hne : ls ≠ [])
    {final : List Char} (hf : final = [] ∨ final = ['\n']) :
    lines (joinLines ls ++ final) = ls := by
  induction ls with
  | nil => exact absurd rfl hne
  | cons l ls ih =>
    have hl := h l List.mem_cons_self
    cases ls with
    | nil =>
      rw [joinLines_singleton, lines, linesFrom_append hl.single, List.append_nil]
      rcases hf with rfl | rfl
      · simp [linesFrom, hl.nonempty]
      · simp [linesFrom, hl.stripReturn_eq]
    | cons m ls =>
      rw [joinLines_cons_cons, List.append_assoc, lines, linesFrom_append hl.single,
        List.append_nil, List.cons_append, linesFrom, if_pos rfl, List.reverse_reverse,
        hl.stripReturn_eq]
      congr 1
      exact ih (fun l hm => h l (List.mem_cons_of_mem _ hm)) (List.cons_ne_nil _ _)

theorem head?_joinLines {l : List Char} (hl : l ≠ []) (ls : List (List Char)) :
    (joinLines (l :: ls)).head? = l.head? := by
  cases ls with
  | nil => rw [joinLines_singleton]
  | cons m ls => rw [joinLines_cons_cons, List.head?_append_of_ne_nil _ hl]

theorem joinLines_ne_nil {l : List Char} (hl : l ≠ []) (ls : List (List Char)) :
    joinLines (l :: ls) ≠ [] := by
  intro he
  have hh := head?_joinLines hl ls
  rw [he, List.head?_nil, eq_comm, List.head?_eq_none_iff] at hh
  exact hl hh

theorem mem_getLast?_joinLines {ls : List (List Char)} (h : ∀ l ∈ ls, l ≠ []) {a : Char}
    (ha : a ∈ (joinLines ls).getLast?) : ∃ l ∈ ls, a ∈ l.getLast? := by
  induction ls with
  | nil => simp [joinLines, List.intercalate] at ha
  | cons l ls ih =>
    cases ls with
    | nil => exact ⟨l, by simp, by rwa [joinLines_singleton] at ha⟩
    | cons m ls =>
      have hne := joinLines_ne_nil (h m (by simp)) ls
      rw [joinLines_cons_cons, List.getLast?_append_of_ne_nil _ (List.cons_ne_nil _ _),
        List.getLast?_cons_of_ne_nil hne] at ha
      obtain ⟨k, hk, hak⟩ := ih (fun l hm => h l (List.mem_cons_of_mem _ hm)) ha
      exact ⟨k, List.mem_cons_of_mem _ hk, hak⟩

/-- A text of trimmed lines is trimmed. -/
theorem trimmed_joinLines {ls : List (List Char)} (h : ∀ l ∈ ls, Line l) :
    Trimmed isWhitespace (joinLines ls) := by
  constructor
  · intro a ha
    cases ls with
    | nil => simp [joinLines, List.intercalate] at ha
    | cons l ls =>
      rw [head?_joinLines (h l List.mem_cons_self).nonempty] at ha
      exact (h l List.mem_cons_self).trimmed.head a ha
  · intro a ha
    obtain ⟨l, hl, hal⟩ := mem_getLast?_joinLines (fun l hl => (h l hl).nonempty) ha
    exact (h l hl).trimmed.last a hal

end ProxyFleet.TextLines
