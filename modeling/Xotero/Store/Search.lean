import Mathlib.Data.List.Dedup
import Mathlib.Data.List.Sort
import Xotero.Query
import Xotero.Store.Database

/-!
What the item statements search and sort by: LIKE patterns, the generated
columns that only a listing reads, and the order of its rows. Collation, case and
character classes are those of the database's locale.
-/

namespace Xotero

/-- A deterministic collation, the folding of ILIKE, and the word characters and
digits of a regular expression. -/
structure Locale where
  compare : String → String → Ordering
  lower : String → String
  isAlnum : Char → Bool
  isDigit : Char → Bool
  trans : Std.TransCmp compare
  lawful : Std.LawfulEqCmp compare

/-! LIKE -/

/-- A pattern with `\` as its escape character. -/
def likeMatch : List Char → List Char → Bool
  | [], text => text.isEmpty
  | '%' :: pattern, text => text.tails.any (likeMatch pattern)
  | '_' :: pattern, _ :: text => likeMatch pattern text
  | '_' :: _, [] => false
  | '\\' :: c :: pattern, c' :: text => c = c' && likeMatch pattern text
  | '\\' :: _ :: _, [] => false
  | c :: pattern, c' :: text => c = c' && likeMatch pattern text
  | _ :: _, [] => false

/-- Escape the wildcards, so that a term matches itself only. -/
def escapeLike (term : String) : String :=
  String.ofList (term.toList.flatMap fun c =>
    if c = '\\' || c = '%' || c = '_' then ['\\', c] else [c])

def likePattern (term : String) : String := "%" ++ escapeLike term ++ "%"

def Locale.ilike (locale : Locale) (text pattern : String) : Bool :=
  likeMatch (locale.lower pattern).toList (locale.lower text).toList

/-! Generated columns -/

namespace Value

def concatWs (parts : List (Option String)) : String := " ".intercalate (parts.filterMap id)

def creatorText (creator : Value) : String :=
  concatWs [creator.getText "lastName", creator.getText "firstName", creator.getText "name"]

/-- `xotero_item_text` -/
def searchText (data : Value) : String :=
  concatWs [data.getText "title", data.getText "date",
    match data.elements "creators" with
    | [] => none
    | creators => some (" ".intercalate (creators.map creatorText))]

def collectionKeys (data : Value) : List String := (data.elements "collections").filterMap asText

/-- The first word of the date that is four digits long. -/
def dateYear (locale : Locale) (data : Value) : Option String := do
  let date ← data.getText "date"
  let words := date.toList.splitOnP fun c => !(locale.isAlnum c || c = '_')
  let year ← words.find? fun word => word.length = 4 && word.all locale.isDigit
  return String.ofList year

end Value

/-! The filters -/

def noteVisible (includeNotes : Bool) (o : Object) : Bool :=
  includeNotes || o.data.itemType ≠ some "note"

/-- `push_item_filters`, for the row of `key` whose full text is `fulltext`. -/
def itemMatches (locale : Locale) (q : ItemQuery) (includeNotes : Bool)
    (fulltext : Option Fulltext) (o : Object) : Bool :=
  noteVisible includeNotes o &&
    (if q.onlyTrashed then o.data.deleted else q.includeTrashed || !o.data.deleted) &&
    q.q.all (fun term => locale.ilike o.data.searchText (likePattern term) ||
      (q.qmode = .everything &&
        fulltext.any fun f => locale.ilike f.content (likePattern term))) &&
    (q.itemType.included.isEmpty || o.data.itemType.any q.itemType.included.contains) &&
    -- A missing type is not different from the excluded ones: the comparison is null.
    (q.itemType.excluded.isEmpty ||
      o.data.itemType.any fun type => !q.itemType.excluded.contains type) &&
    q.tags.all (fun group => o.data.tagNames.any group.contains) &&
    (!q.top || o.data.isTop) &&
    q.collection.all o.data.collectionKeys.contains

/-! The order -/

/-- `order_expr` -/
def SortKey.value (locale : Locale) (data : Value) : SortKey → Option String
  | .dateModified => data.getText "dateModified"
  | .dateAdded => data.getText "dateAdded"
  | .title => data.getText "title"
  | .creator => (data.elements "creators").head?.bind fun creator => creator.getText "lastName"
  | .date => data.dateYear locale
  | .itemType => data.itemType

def Direction.apply (direction : Direction) (cmp : String → String → Ordering) :
    String → String → Ordering :=
  match direction with
  | .asc => cmp
  | .desc => fun s t => cmp t s

/-- `nulls last` -/
def nullsLast (cmp : String → String → Ordering) : Option String → Option String → Ordering
  | some s, some t => cmp s t
  | some _, none => .lt
  | none, some _ => .gt
  | none, none => .eq

def ItemQuery.compareRows (locale : Locale) (q : ItemQuery) (e e' : String × Object) : Ordering :=
  (nullsLast (q.direction.apply locale.compare) (q.sort.value locale e.2.data)
    (q.sort.value locale e'.2.data)).then (locale.compare e.1 e'.1)

instance (locale : Locale) : Std.TransCmp locale.compare := locale.trans

instance (locale : Locale) : Std.LawfulEqCmp locale.compare := locale.lawful

instance (direction : Direction) (cmp : String → String → Ordering) [Std.TransCmp cmp] :
    Std.TransCmp (direction.apply cmp) := by
  cases direction
  · exact inferInstanceAs (Std.TransCmp cmp)
  · exact inferInstanceAs (Std.TransCmp fun s t => cmp t s)

theorem transCmp_on {α β : Type} (f : α → β) (cmp : β → β → Ordering) [Std.TransCmp cmp] :
    Std.TransCmp fun a b => cmp (f a) (f b) where
  eq_swap {a b} := @Std.OrientedCmp.eq_swap β cmp _ (f a) (f b)
  isLE_trans {a b c} := @Std.TransCmp.isLE_trans β cmp _ (f a) (f b) (f c)

instance (cmp : String → String → Ordering) [Std.TransCmp cmp] : Std.TransCmp (nullsLast cmp) where
  eq_swap {a b} := by
    cases a <;> cases b <;> simp only [nullsLast, Ordering.swap]
    exact @Std.OrientedCmp.eq_swap _ cmp _ _ _
  isLE_trans {a b c} := by
    cases a <;> cases b <;> cases c <;> simp [nullsLast]
    exact @Std.TransCmp.isLE_trans _ cmp _ _ _ _

instance (locale : Locale) (q : ItemQuery) : Std.TransCmp (q.compareRows locale) := by
  have first := transCmp_on (fun e : String × Object => q.sort.value locale e.2.data)
    (nullsLast (q.direction.apply locale.compare))
  have second := transCmp_on (fun e : String × Object => e.1) locale.compare
  exact inferInstanceAs (Std.TransCmp (compareLex
    (fun e e' : String × Object => nullsLast (q.direction.apply locale.compare)
      (q.sort.value locale e.2.data) (q.sort.value locale e'.2.data))
    fun e e' : String × Object => locale.compare e.1 e'.1))

/-- The key decides between rows that the sort key does not tell apart. -/
theorem ItemQuery.key_eq_of_compareRows {locale : Locale} {q : ItemQuery}
    {e e' : String × Object} (h : q.compareRows locale e e' = .eq) : e.1 = e'.1 :=
  Std.LawfulEqCmp.eq_of_compare (Ordering.then_eq_eq.mp h).2

end Xotero
