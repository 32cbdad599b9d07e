import Xotero.Foundation.Glob
import Xotero.Foundation.Ternary
import Xotero.Guarantees.Notes

/-!
What the filters of an item query select. A search term stands for itself, whatever
wildcards it contains. A type filter compares the type of an item with those of the
parameter, and the comparison of a missing type is neither true nor false.
-/

namespace Xotero

/-! ### Search terms -/

/-- `str::replace` of a character. -/
def replaceChar (c : Char) (replacement s : String) : String :=
  String.ofList (s.toList.flatMap fun x => if x = c then replacement.toList else [x])

/-- `escape_like`, one replacement after the other. -/
def escapeLikeInTurn (term : String) : String :=
  replaceChar '_' "\\_" (replaceChar '%' "\\%" (replaceChar '\\' "\\\\" term))

/-- A folding of case, character by character, that keeps the characters that are
special in a pattern to themselves. -/
structure CaseFold where
  fold : Char → Char
  backslash : ∀ c, fold c = '\\' ↔ c = '\\'
  percent : ∀ c, fold c = '%' ↔ c = '%'
  underscore : ∀ c, fold c = '_' ↔ c = '_'

/-- Later replacements meet no character that an earlier one has put there. -/
theorem escapeLikeInTurn_eq (term : String) : escapeLikeInTurn term = escapeLike term := by
  simp only [escapeLikeInTurn, replaceChar, escapeLike, String.toList_ofList, List.flatMap_assoc]
  refine congrArg String.ofList (List.flatMap_congr fun c _ => ?_)
  by_cases backslash : c = '\\'
  · subst backslash
    decide
  · by_cases percent : c = '%'
    · subst percent
      decide
    · by_cases underscore : c = '_'
      · subst underscore
        decide
      · simp [backslash, percent, underscore]

/-- The parts of a LIKE pattern. -/
def readLike : List Char → List (Glob Char)
  | [] => []
  | '%' :: pattern => .many :: readLike pattern
  | '_' :: pattern => .one :: readLike pattern
  | '\\' :: c :: pattern => .lit c :: readLike pattern
  | c :: pattern => .lit c :: readLike pattern

theorem likeMatch_iff (pattern text : List Char) :
    likeMatch pattern text = true ↔ Glob.Matches (readLike pattern) text := by
  induction pattern using readLike.induct generalizing text with
  | case1 => simp [readLike, likeMatch, Glob.matches_nil]
  | case2 pattern ih => simp [readLike, likeMatch, Glob.matches_many, ih]
  | case3 pattern ih => cases text <;> simp [readLike, likeMatch, Glob.matches_one, ih]
  | case4 c pattern ih =>
      cases text <;> simp [readLike, likeMatch, Glob.matches_lit, ih, eq_comm (a := c)]
  | case5 c pattern percent underscore escaped ih =>
      rw [readLike]
      · cases text <;> simp [likeMatch, Glob.matches_lit, ih, eq_comm (a := c)]
      · exact percent
      · exact underscore
      · exact escaped

/-- A character of a term in its pattern. -/
def escapeChar (c : Char) : List Char :=
  if c = '\\' || c = '%' || c = '_' then ['\\', c] else [c]

theorem readLike_escapeChar (c : Char) (pattern : List Char) :
    readLike (escapeChar c ++ pattern) = .lit c :: readLike pattern := by
  unfold escapeChar
  split
  · rfl
  · rename_i plain
    simp only [Bool.or_eq_true, decide_eq_true_eq, not_or] at plain
    obtain ⟨⟨backslash, percent⟩, underscore⟩ := plain
    rw [List.singleton_append, readLike]
    · exact percent
    · exact underscore
    · exact fun c' pattern' same => absurd same backslash

/-- An escaped word reads as its letters. -/
theorem readLike_escaped (word pattern : List Char) :
    readLike (word.flatMap escapeChar ++ pattern) = word.map .lit ++ readLike pattern := by
  induction word with
  | nil => rfl
  | cons c word ih =>
      rw [List.flatMap_cons, List.append_assoc, readLike_escapeChar, ih]
      rfl

namespace CaseFold
variable (f : CaseFold)

/-- Folding and escaping do not interfere. -/
theorem map_escapeChar (c : Char) : (escapeChar c).map f.fold = escapeChar (f.fold c) := by
  have slash : f.fold '\\' = '\\' := (f.backslash _).mpr rfl
  simp only [escapeChar, f.backslash, f.percent, f.underscore]
  split <;> simp [slash]

theorem map_escaped (word : List Char) :
    (word.flatMap escapeChar).map f.fold = (word.map f.fold).flatMap escapeChar := by
  rw [List.map_flatMap, List.flatMap_map]
  exact List.flatMap_congr fun c _ => f.map_escapeChar c

end CaseFold

/-- The folded pattern of a term, part by part. -/
theorem readLike_likePattern (f : CaseFold) (term : String) :
    readLike ((likePattern term).toList.map f.fold) =
      .many :: ((term.toList.map f.fold).map .lit ++ [.many]) := by
  have wild : f.fold '%' = '%' := (f.percent _).mpr rfl
  have parts : (likePattern term).toList.map f.fold =
      '%' :: ((term.toList.map f.fold).flatMap escapeChar ++ ['%']) := by
    rw [← f.map_escaped]
    simp only [likePattern, escapeLike, String.toList_append, String.toList_ofList, List.map_append]
    change ['%'].map f.fold ++ (term.toList.flatMap escapeChar).map f.fold ++ ['%'].map f.fold = _
    simp [wild]
  rw [parts, readLike, readLike_escaped]
  rfl

theorem likeMatch_likePattern (f : CaseFold) (term text : String) :
    likeMatch ((likePattern term).toList.map f.fold) (text.toList.map f.fold) = true ↔
      term.toList.map f.fold <:+: text.toList.map f.fold := by
  rw [likeMatch_iff, readLike_likePattern, Glob.matches_infix]

/-- A term is found where it occurs, letter for letter up to case. -/
theorem search_literal (f : CaseFold) (term text : String) :
    likeMatch (("%" ++ escapeLikeInTurn term ++ "%").toList.map f.fold) (text.toList.map f.fold) =
        true ↔
      term.toList.map f.fold <:+: text.toList.map f.fold := by
  rw [escapeLikeInTurn_eq]
  exact likeMatch_likePattern f term text

/-- A locale that folds text character by character. -/
def Locale.Folds (locale : Locale) (f : CaseFold) : Prop :=
  ∀ s, locale.lower s = String.ofList (s.toList.map f.fold)

/-- The search of a listing, in such a locale. -/
theorem Locale.Folds.ilike_likePattern {locale : Locale} {f : CaseFold} (folds : locale.Folds f)
    (term text : String) : locale.ilike text (likePattern term) = true ↔
      term.toList.map f.fold <:+: text.toList.map f.fold := by
  rw [Locale.ilike, folds, folds, String.toList_ofList, String.toList_ofList]
  exact likeMatch_likePattern f term text

theorem toLower_eq_iff {c k : Char} (other : k.toNat < 65 ∨ 90 < k.toNat ∧ k.toNat < 97) :
    c.toLower = k ↔ c = k := by
  unfold Char.toLower
  split
  · rename_i upper
    have low : 65 ≤ c.val.toNat := UInt32.le_iff_toNat_le.mp upper.1
    have high : c.val.toNat ≤ 90 := UInt32.le_iff_toNat_le.mp upper.2
    have moved : (c.val + ('a'.val - 'A'.val)).toNat = c.val.toNat + 32 := by
      have add : ('a'.val - 'A'.val).toNat = 32 := rfl
      rw [UInt32.toNat_add, add]
      omega
    constructor
    · rintro rfl
      change (c.val + ('a'.val - 'A'.val)).toNat < 65 ∨
        90 < (c.val + ('a'.val - 'A'.val)).toNat ∧
          (c.val + ('a'.val - 'A'.val)).toNat < 97 at other
      omega
    · rintro rfl
      change c.val.toNat < 65 ∨ 90 < c.val.toNat ∧ c.val.toNat < 97 at other
      omega
  · rfl

/-- The folding of the C locale. -/
def asciiFold : CaseFold where
  fold := Char.toLower
  backslash _ := toLower_eq_iff (by decide)
  percent _ := toLower_eq_iff (by decide)
  underscore _ := toLower_eq_iff (by decide)

theorem plainLocale_folds : plainLocale.Folds asciiFold := fun _ => rfl

example : plainLocale.ilike "50% OFF" (likePattern "0% o") = true ∧
    plainLocale.ilike "500 OFF" (likePattern "0% o") = false := by decide

/-! ### Types -/

namespace TypeFilter

/-- What a filter is for: the type is among those to include, if there are any, and not
among those to exclude. -/
def Means (filter : TypeFilter) (type : Option String) : Prop :=
  (filter.included = [] ∨ ∃ name ∈ filter.included, type = some name) ∧
    ∀ name ∈ filter.excluded, type ≠ some name

/-- The conditions of `push_item_filters` on the type. -/
def conditions (filter : TypeFilter) (type : Option String) : List Ternary :=
  (if filter.included.isEmpty then [] else [.eqAny type filter.included]) ++
    if filter.excluded.isEmpty then [] else [.neAll type filter.excluded]

/-- They are joined by `and`. -/
def selects (filter : TypeFilter) (type : Option String) : Ternary :=
  (filter.conditions type).foldl Ternary.and (some true)

theorem holds_selects {filter : TypeFilter} {type : Option String} :
    (filter.selects type).Holds ↔
      (filter.included = [] ∨ ∃ name ∈ filter.included, type = some name) ∧
        (filter.excluded = [] ∨ ∃ name, type = some name ∧ name ∉ filter.excluded) := by
  have included : (filter.included = [] ∨ (Ternary.eqAny type filter.included).Holds) ↔
      (filter.included = [] ∨ ∃ name ∈ filter.included, type = some name) :=
    or_congr_right Ternary.holds_eqAny
  have excluded : (filter.excluded = [] ∨ (Ternary.neAll type filter.excluded).Holds) ↔
      (filter.excluded = [] ∨ ∃ name, type = some name ∧ name ∉ filter.excluded) := by
    rw [Ternary.holds_neAll, ← or_assoc, or_self]
  rw [← included, ← excluded, selects, conditions]
  have yes : Ternary.Holds (some true) := rfl
  by_cases all : filter.included = [] <;> by_cases none : filter.excluded = [] <;>
    simp [all, none, Ternary.holds_and, yes]

/-- Only a missing type comes out differently, and only where there are types to
exclude and none to include. -/
theorem selects_iff_means {filter : TypeFilter} {type : Option String} :
    ((filter.selects type).Holds ↔ filter.Means type) ↔
      type.isSome ∨ filter.included ≠ [] ∨ filter.excluded = [] := by
  rw [holds_selects, Means]
  cases type with
  | none =>
      by_cases all : filter.included = [] <;> by_cases none : filter.excluded = [] <;>
        simp [all, none]
  | some name =>
      refine iff_of_true (and_congr_right fun _ => ?_) (.inl rfl)
      constructor
      · rintro (none | ⟨_, same, apart⟩) other mem here
        · rw [none] at mem
          cases mem
        · obtain rfl := Option.some.inj same
          exact apart (Option.some.inj here ▸ mem)
      · exact fun apart => .inr ⟨name, rfl, fun mem => apart name mem rfl⟩

/-! #### The parameter -/

/-- The type that a token with a minus sign excludes. -/
def negated (token : String) : Option String :=
  match token.toList with
  | '-' :: neg => some (trim (String.ofList neg))
  | _ => none

theorem add_eq (filter : TypeFilter) (token : String) : filter.add token =
    ⟨filter.included ++ if (negated token).isNone then [token] else [],
      filter.excluded ++ (negated token).toList⟩ := by
  unfold add negated
  split
  · simp [*]
  · simp

theorem foldl_add (tokens : List String) (filter : TypeFilter) : tokens.foldl add filter =
    ⟨filter.included ++ tokens.filter fun token => (negated token).isNone,
      filter.excluded ++ tokens.filterMap negated⟩ := by
  induction tokens generalizing filter with
  | nil => simp
  | cons token tokens ih =>
      rw [List.foldl_cons, ih, add_eq]
      cases h : negated token <;> simp [h]

/-- The tokens without a sign are included, those with one excluded. -/
theorem parse_some (value : String) : parse (some value) =
    ⟨(alternatives value).filter fun token => (negated token).isNone,
      (alternatives value).filterMap negated⟩ := by
  rw [parse, foldl_add]
  rfl

/-- The parameter names types, and each with a minus sign. -/
def OnlyNegated (value : Option String) : Prop :=
  ∃ v, value = some v ∧ alternatives v ≠ [] ∧
    ∀ token ∈ alternatives v, token.toList.head? = some '-'

theorem isSome_negated {token : String} :
    (negated token).isSome ↔ token.toList.head? = some '-' := by
  unfold negated
  split
  · rename_i neg same
    simp [same]
  · rename_i other
    refine iff_of_false Bool.false_ne_true fun minus => ?_
    exact other _ (List.eq_cons_of_mem_head? minus)

theorem onlyNegated_iff (value : Option String) :
    OnlyNegated value ↔ (parse value).included = [] ∧ (parse value).excluded ≠ [] := by
  cases value with
  | none => simp [OnlyNegated, parse]
  | some v =>
      have signed : (∀ token ∈ alternatives v, token.toList.head? = some '-') ↔
          (alternatives v).filter (fun token => (negated token).isNone) = [] := by
        simp [List.filter_eq_nil_iff, ← isSome_negated, Option.isSome_iff_ne_none]
      rw [parse_some, OnlyNegated]
      simp only [Option.some.injEq, exists_eq_left', signed]
      constructor
      · rintro ⟨named, all⟩
        obtain ⟨token, tokens, same⟩ := List.exists_cons_of_ne_nil named
        refine ⟨all, fun none => ?_⟩
        have sign := isSome_negated.mpr (signed.mpr all token (by simp [same]))
        rw [List.filterMap_eq_nil_iff.mp none token (by simp [same])] at sign
        cases sign
      · rintro ⟨all, some_excluded⟩
        refine ⟨fun none => some_excluded ?_, all⟩
        rw [none]
        rfl

end TypeFilter

/-- The type filter of a listing means what it says, except where all types of the
parameter are excluded and the item has none. -/
theorem type_filter_iff (value : Option String) (data : Value) :
    (((TypeFilter.parse value).selects data.itemType).Holds ↔
      (TypeFilter.parse value).Means data.itemType) ↔
        data.itemType.isSome ∨ ¬ TypeFilter.OnlyNegated value := by
  rw [TypeFilter.selects_iff_means, TypeFilter.onlyNegated_iff, not_and_or, not_not]

/-- An item without a type is no attachment, and is not listed among what is none. -/
theorem untyped_excluded :
    (TypeFilter.parse (some "-attachment")).Means
      (Value.object [("title", .string "Sets")]).itemType ∧
    ¬ ((TypeFilter.parse (some "-attachment")).selects
      (Value.object [("title", .string "Sets")]).itemType).Holds ∧
    itemMatches plainLocale (ItemQuery.fromParams [("itemType", "-attachment")]) true none
      ⟨1, .object [("title", .string "Sets")]⟩ = false := by
  have parsed : TypeFilter.parse (some "-attachment") = ⟨[], ["attachment"]⟩ := by decide
  rw [parsed]
  exact ⟨⟨.inl rfl, fun _ _ same => nomatch same⟩, by decide, by decide⟩

/-- The listing selects by this filter and its other conditions. -/
theorem itemMatches_type (locale : Locale) (q : ItemQuery) (notes : Bool)
    (fulltext : Option Fulltext) (o : Object) :
    itemMatches locale q notes fulltext o =
      (itemMatches locale { q with itemType := ⟨[], []⟩ } notes fulltext o &&
        decide (q.itemType.selects o.data.itemType).Holds) := by
  have same : (decide (q.itemType.selects o.data.itemType).Holds) =
      ((q.itemType.included.isEmpty || o.data.itemType.any q.itemType.included.contains) &&
        (q.itemType.excluded.isEmpty ||
          o.data.itemType.any fun type => !q.itemType.excluded.contains type)) := by
    rw [Bool.eq_iff_iff, decide_eq_true_iff, TypeFilter.holds_selects]
    cases o.data.itemType <;> simp
  rw [same]
  simp only [itemMatches, List.isEmpty_nil, Bool.true_or, Bool.and_true]
  ac_rfl

end Xotero
