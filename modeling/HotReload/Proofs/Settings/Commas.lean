import HotReload.Settings.Field
import Mathlib.Data.List.TakeWhile

/-!
# Texts with commas

A list of items is written as one text by putting commas between them. Splitting at commas gives the
items back, whatever blanks stand around them and however many empty ones stand between. It keeps
all characters but commas and blanks, so that a text and its items have the same bulk.
-/
namespace HotReload.Field

/-- An item, or nothing, with the blanks around it. -/
structure CommaPiece where
  before : String
  item : String
  after : String

/-- Whether there is nothing but blanks around an item that has no commas, and
no blanks at its ends. -/
structure CommaPiece.IsTidy (x : CommaPiece) : Prop where
  before : x.before.toList.all Text.isBlank = true
  after : x.after.toList.all Text.isBlank = true
  comma : ',' ∉ x.item.toList
  head : x.item.toList.head?.any Text.isBlank = false
  last : x.item.toList.getLast?.any Text.isBlank = false

def CommaPiece.text (x : CommaPiece) : String := x.before ++ x.item ++ x.after

/-- The items among some pieces. -/
def itemsOf (pieces : List CommaPiece) : List String := (pieces.map (·.item)).filter (· ≠ "")

/-- Pieces with commas between them. -/
def joinCommas (pieces : List CommaPiece) : String := ",".intercalate (pieces.map (·.text))

theorem dropWhile_blanks {blanks rest : List Char} (h : blanks.all Text.isBlank = true)
    (hr : rest.head?.any Text.isBlank = false) :
    (blanks ++ rest).dropWhile Text.isBlank = rest := by
  rw [List.dropWhile_append_of_pos (by simpa using h)]
  cases rest with
  | nil => rfl
  | cons c rest => rw [List.dropWhile_cons_of_neg (by simpa using hr)]

theorem strip_blanks {before item after : List Char} (hb : before.all Text.isBlank = true)
    (ha : after.all Text.isBlank = true) (hh : item.head?.any Text.isBlank = false)
    (hl : item.getLast?.any Text.isBlank = false) :
    Text.strip (before ++ item ++ after) = item := by
  have hleft : (before ++ item ++ after).dropWhile Text.isBlank = item ++ if item = [] then []
    else after := by
    rw [List.append_assoc]
    cases item with
    | nil =>
      have hall := List.all_append.trans (Bool.and_eq_true_iff.mpr ⟨hb, ha⟩)
      rw [List.nil_append, if_pos rfl]
      exact List.dropWhile_eq_nil_iff.mpr (List.all_eq_true.mp hall)
    | cons c item => exact dropWhile_blanks hb hh
  rw [Text.strip, Text.stripClass, hleft, List.reverse_append, dropWhile_blanks,
    List.reverse_reverse]
  · split
    · rfl
    · rwa [List.all_reverse]
  · rwa [List.head?_reverse]

theorem isBlank_comma : Text.isBlank ',' = false := by decide

theorem comma_not_mem_blanks {blanks : List Char} (h : blanks.all Text.isBlank = true) :
    ',' ∉ blanks :=
  fun hm => by
  have hblank := List.all_eq_true.mp h ',' hm
  rw [isBlank_comma] at hblank
  exact Bool.false_ne_true hblank

theorem CommaPiece.IsTidy.comma_not_mem_text {x : CommaPiece} (h : x.IsTidy) :
    ',' ∉ x.text.toList := by
  rw [text, String.toList_append, String.toList_append, List.mem_append, List.mem_append,
    not_or, not_or]
  exact ⟨⟨comma_not_mem_blanks h.before, h.comma⟩, comma_not_mem_blanks h.after⟩

theorem CommaPiece.IsTidy.strip_text {x : CommaPiece} (h : x.IsTidy) :
    Text.strip x.text.toList = x.item.toList := by
  rw [text, String.toList_append, String.toList_append]
  exact strip_blanks h.before h.after h.head h.last

/-- Splitting gives back the items that were put together. -/
theorem splitCommas_join {pieces : List CommaPiece} (h : ∀ x ∈ pieces, x.IsTidy) :
    splitCommas (joinCommas pieces) = itemsOf pieces := by
  by_cases hp : pieces = []
  · subst hp
    decide
  · have hsplit : (joinCommas pieces).toList.splitOn ',' = pieces.map (·.text.toList) := by
      rw [joinCommas, String.toList_intercalate, List.map_map]
      refine List.splitOn_intercalate ',' ?_ (by simpa using hp)
      exact List.forall_mem_map.mpr fun x hx => (h x hx).comma_not_mem_text
    have hstrip : (pieces.map (·.text.toList)).map Text.strip = pieces.map (·.item.toList) := by
      rw [List.map_map]
      exact List.map_congr_left fun x hx => (h x hx).strip_text
    rw [splitCommas, hsplit, hstrip, itemsOf, List.filter_map, List.filter_map, List.map_map]
    simp [Function.comp_def]

/-- Whether a character is neither a comma nor a blank. -/
def hasBulk (c : Char) : Bool := c ≠ ',' && !Text.isBlank c

/-- How many such characters there are. -/
def bulk (cs : List Char) : Nat := cs.countP hasBulk

def bulkOf (items : List String) : Nat := bulk (items.flatMap String.toList)

theorem bulk_nil : bulk [] = 0 := rfl

theorem bulk_cons (c : Char) (cs : List Char) : bulk (c :: cs) = bulk cs + (hasBulk c).toNat := by
  rw [bulk, bulk, List.countP_cons]
  cases hasBulk c <;> rfl

theorem bulk_append (cs ds : List Char) : bulk (cs ++ ds) = bulk cs + bulk ds :=
  List.countP_append ..

theorem bulk_comma : bulk [','] = 0 := by decide

theorem bulk_blanks {blanks : List Char} (h : blanks.all Text.isBlank = true) :
    bulk blanks = 0 := by
  refine List.countP_eq_zero.mpr fun c hc => ?_
  simp [hasBulk, List.all_eq_true.mp h c hc]

theorem bulk_reverse (cs : List Char) : bulk cs.reverse = bulk cs := List.countP_reverse

theorem bulk_dropWhile (cs : List Char) : bulk (cs.dropWhile Text.isBlank) = bulk cs := by
  have hsplit := congrArg bulk (List.takeWhile_append_dropWhile (p := Text.isBlank) (l := cs))
  rwa [bulk_append, bulk_blanks List.all_takeWhile, Nat.zero_add] at hsplit

theorem bulk_strip (cs : List Char) : bulk (Text.strip cs) = bulk cs := by
  rw [Text.strip, Text.stripClass, bulk_reverse, bulk_dropWhile, bulk_reverse, bulk_dropWhile]

theorem bulkOf_nil : bulkOf [] = 0 := rfl

theorem bulkOf_cons (s : String) (items : List String) :
    bulkOf (s :: items) = bulk s.toList + bulkOf items := by
  rw [bulkOf, List.flatMap_cons, bulk_append, bulkOf]

theorem bulk_flatten_strip (parts : List (List Char)) :
    bulk (parts.map Text.strip).flatten = bulk parts.flatten := by
  induction parts with
  | nil => rfl
  | cons part rest ih =>
    rw [List.map_cons, List.flatten_cons, List.flatten_cons, bulk_append, bulk_append,
      bulk_strip, ih]

theorem bulk_intercalate (parts : List (List Char)) :
    bulk ([','].intercalate parts) = bulk parts.flatten := by
  induction parts with
  | nil => rfl
  | cons part rest ih =>
    cases rest with
    | nil => simp
    | cons next rest =>
      rw [List.intercalate_cons_cons, bulk_append, bulk_append, bulk_comma, ih, Nat.add_zero,
        ← bulk_append, ← List.flatten_cons]

/-- A text has the bulk of its items. -/
theorem bulkOf_splitCommas (s : String) : bulkOf (splitCommas s) = bulk s.toList :=
  calc bulkOf (splitCommas s)
      = bulk (((s.toList.splitOn ',').map Text.strip).filter (· ≠ [])).flatten := by
        rw [bulkOf, splitCommas, List.flatMap_map]
        simp
    _ = bulk ((s.toList.splitOn ',').map Text.strip).flatten := by rw [List.flatten_filter_ne_nil]
    _ = bulk s.toList := by rw [bulk_flatten_strip, ← bulk_intercalate, List.intercalate_splitOn]

end HotReload.Field
