import Mathlib.Data.List.Forall2
import Mathlib.Data.List.Induction
import Mathlib.Data.List.Nodup
import TreeQuery.Proofs.Document.Listing
import TreeQuery.Proofs.Document.Plain
import TreeQuery.Proofs.Number.Exactness
import TreeQuery.Proofs.Selector.Values

/-!
The normal form of JSON.

The JSON form of a keyed collection has every key once, where the collection has it first, and with
the form of its last value. The form of an element is determined by this at every depth, and it
is its own form when it is read back.
-/

namespace TreeQuery

/-! ## Entries with repeated keys -/

namespace Entries

variable {α β : Type} {entries : List (String × α)} {entry : String × α} {key : String} {value : α}
  {words kept : List String}

/-- The keys of entries, as often as they occur. -/
def keys (entries : List (String × α)) : List String :=
  entries.map Prod.fst

/-- Whether a key has a value where it occurs for the last time. -/
def IsLast (entries : List (String × α)) (key : String) (value : α) : Prop :=
  ∃ before after, entries = before ++ (key, value) :: after ∧ key ∉ keys after

/-- Words without repetitions, in the order in which they occur first. -/
structure Firsts (words kept : List String) : Prop where
  distinct : kept.Nodup
  mem_iff : ∀ word, word ∈ kept ↔ word ∈ words
  ordered : kept.Pairwise fun earlier later => words.idxOf earlier ≤ words.idxOf later

theorem keys_append (entries others : List (String × α)) :
    keys (entries ++ others) = keys entries ++ keys others :=
  List.map_append

theorem keys_map (convert : α → β) (entries : List (String × α)) :
    keys (entries.map fun entry => (entry.1, convert entry.2)) = keys entries := by
  rw [keys, keys, List.map_map]
  rfl

theorem pairwise_keys {relation : String → String → Prop} :
    (keys entries).Pairwise relation ↔
      entries.Pairwise fun first second => relation first.1 second.1 :=
  List.pairwise_map

/-- A new entry is the last one of its key, and leaves the other keys as they are. -/
theorem isLast_snoc :
    IsLast (entries ++ [entry]) key value ↔
      if key = entry.1 then value = entry.2 else IsLast entries key value := by
  constructor
  · rintro ⟨before, after, isSplit, notAfter⟩
    -- The new entry ends the part behind the last occurrence, or it is that occurrence.
    rcases List.eq_nil_or_concat after with rfl | ⟨after, last, rfl⟩
    · obtain ⟨_, same⟩ := List.append_inj' isSplit rfl
      cases same
      rw [if_pos rfl]
    · rw [List.concat_eq_append, ← List.cons_append, ← List.append_assoc] at isSplit
      obtain ⟨rfl, same⟩ := List.append_inj' isSplit rfl
      cases same
      rw [List.concat_eq_append, keys_append, List.mem_append, not_or] at notAfter
      rw [if_neg fun same => notAfter.2 (List.mem_singleton.mpr same)]
      exact ⟨before, after, rfl, notAfter.1⟩
  · split
    · rename_i same
      rintro rfl
      exact ⟨entries, [], by rw [same], List.not_mem_nil⟩
    · rename_i different
      rintro ⟨before, after, rfl, notAfter⟩
      refine ⟨before, after ++ [entry], List.append_assoc .., ?_⟩
      rw [keys_append, List.mem_append, not_or]
      exact ⟨notAfter, fun same => different (List.mem_singleton.mp same)⟩

theorem not_isLast_nil : ¬IsLast [] key value := by
  rintro ⟨before, after, isSplit, _⟩
  exact List.append_ne_nil_of_right_ne_nil before (List.cons_ne_nil _ after) isSplit.symm

theorem IsLast.mem (isLast : IsLast entries key value) : (key, value) ∈ entries := by
  obtain ⟨before, after, rfl, _⟩ := isLast
  exact List.mem_append_right before List.mem_cons_self

theorem IsLast.mem_keys (isLast : IsLast entries key value) : key ∈ keys entries :=
  List.mem_map_of_mem isLast.mem

theorem IsLast.unique {other : α} (isLast : IsLast entries key value)
    (otherIsLast : IsLast entries key other) : value = other := by
  induction entries using List.reverseRecOn with
  | nil => exact absurd isLast not_isLast_nil
  | append_singleton entries entry induction =>
      rw [isLast_snoc] at isLast otherIsLast
      split at isLast
      · rename_i same
        rw [if_pos same] at otherIsLast
        rw [isLast, otherIsLast]
      · rename_i different
        rw [if_neg different] at otherIsLast
        exact induction isLast otherIsLast

theorem exists_isLast (isKey : key ∈ keys entries) : ∃ value, IsLast entries key value := by
  induction entries using List.reverseRecOn with
  | nil => exact absurd isKey List.not_mem_nil
  | append_singleton entries entry induction =>
      simp only [isLast_snoc]
      split
      · exact ⟨entry.2, rfl⟩
      · rename_i different
        rw [keys_append, List.mem_append] at isKey
        exact induction (isKey.resolve_right fun same => different (List.mem_singleton.mp same))

/-- Converted values are last where the values are. -/
theorem isLast_map {convert : α → β} {converted : β} :
    IsLast (entries.map fun entry => (entry.1, convert entry.2)) key converted ↔
      ∃ value, IsLast entries key value ∧ convert value = converted := by
  induction entries using List.reverseRecOn with
  | nil => simp [not_isLast_nil]
  | append_singleton entries entry induction =>
      simp only [List.map_append, List.map_cons, List.map_nil, isLast_snoc]
      split
      · simp [eq_comm]
      · exact induction

/-- Among distinct keys every entry is the last one of its key. -/
theorem isLast_iff_mem (distinct : (keys entries).Nodup) :
    IsLast entries key value ↔ (key, value) ∈ entries := by
  refine ⟨IsLast.mem, fun member => ?_⟩
  obtain ⟨before, after, rfl⟩ := List.append_of_mem member
  refine ⟨before, after, rfl, ?_⟩
  rw [keys_append, List.nodup_append] at distinct
  exact (List.nodup_cons.mp distinct.2.1).1

theorem firsts_nil : Firsts [] [] :=
  ⟨.nil, fun _ => .rfl, .nil⟩

/-- A new word comes last, and a word that is present keeps its place. -/
theorem Firsts.snoc (firsts : Firsts words kept) (word : String) :
    Firsts (words ++ [word]) (if word ∈ kept then kept else kept ++ [word]) := by
  -- A new word behind the others leaves the first occurrences of those where they are.
  have places : ∀ present ∈ kept, (words ++ [word]).idxOf present = words.idxOf present :=
    fun present isKept => List.idxOf_append_of_mem ((firsts.mem_iff present).mp isKept)
  have ordered : kept.Pairwise fun earlier later =>
      (words ++ [word]).idxOf earlier ≤ (words ++ [word]).idxOf later := by
    refine firsts.ordered.imp_of_mem fun {earlier later} isEarlier isLater before => ?_
    rwa [places earlier isEarlier, places later isLater]
  split
  · rename_i isKept
    refine ⟨firsts.distinct, fun other => ?_, ordered⟩
    rw [firsts.mem_iff, List.mem_append, List.mem_singleton]
    refine ⟨.inl, fun isWord => isWord.elim id ?_⟩
    rintro rfl
    exact (firsts.mem_iff other).mp isKept
  · rename_i isNew
    have notWord : word ∉ words := fun isWord => isNew ((firsts.mem_iff word).mpr isWord)
    constructor
    · refine List.nodup_append.mpr ⟨firsts.distinct, List.nodup_singleton word, ?_⟩
      rintro present isKept _ isWord rfl
      exact isNew (List.mem_singleton.mp isWord ▸ isKept)
    · intro other
      rw [List.mem_append, List.mem_append, firsts.mem_iff]
    · refine List.pairwise_append.mpr ⟨ordered, List.pairwise_singleton _ _, ?_⟩
      intro present isKept last isLast
      obtain rfl := List.mem_singleton.mp isLast
      rw [places present isKept, List.idxOf_append_of_notMem notWord]
      exact Nat.le_trans List.idxOf_le_length (Nat.le_add_right _ _)

/-- Distinct words are their own first occurrences. -/
theorem firsts_self (distinct : words.Nodup) : Firsts words words := by
  refine ⟨distinct, fun _ => .rfl, List.pairwise_iff_getElem.mpr ?_⟩
  intro earlier later isEarlier isLater before
  rw [distinct.idxOf_getElem, distinct.idxOf_getElem]
  exact Nat.le_of_lt before

end Entries

/-! ## Merged entries -/

namespace Json

open Entries

variable {entries merged others : List (String × Json)} {key newKey : String}
  {value newValue : Json}

/-- Entries with every key once: in the place of its first occurrence, with the value of its
last. -/
structure IsMerged (entries merged : List (String × Json)) : Prop where
  firsts : Firsts (keys entries) (keys merged)
  carries : ∀ key value, (key, value) ∈ merged ↔ IsLast entries key value

theorem keys_put (key : String) (value : Json) (entries : List (String × Json)) :
    keys (put key value entries) =
      if key ∈ keys entries then keys entries else keys entries ++ [key] := by
  induction entries with
  | nil => rfl
  | cons entry entries induction =>
      obtain ⟨present, old⟩ := entry
      simp only [put, keys, List.map_cons, List.mem_cons] at induction ⊢
      split
      · rename_i same
        simp [same]
      · rename_i different
        rw [List.map_cons, induction]
        by_cases isKey : key ∈ entries.map Prod.fst
        · simp [isKey]
        · simp [isKey, Ne.symm different]

theorem mem_put (distinct : (keys entries).Nodup) :
    (key, value) ∈ put newKey newValue entries ↔
      if key = newKey then value = newValue else (key, value) ∈ entries := by
  induction entries with
  | nil => simp [put]
  | cons entry entries induction =>
      obtain ⟨present, old⟩ := entry
      obtain ⟨isOnly, restDistinct⟩ := List.nodup_cons.mp distinct
      have notRest : (present, value) ∉ entries := fun member =>
        isOnly (List.mem_map.mpr ⟨(present, value), member, rfl⟩)
      rw [put]
      split
      · rename_i same
        subst same
        rw [List.mem_cons, List.mem_cons]
        by_cases sameKey : key = present
        · subst sameKey
          simp [notRest]
        · simp [sameKey]
      · rename_i different
        rw [List.mem_cons, List.mem_cons, induction restDistinct]
        by_cases sameKey : key = newKey
        · subst sameKey
          simp [Ne.symm different]
        · simp [sameKey]

theorem IsMerged.put (isMerged : IsMerged entries merged) (key : String) (value : Json) :
    IsMerged (entries ++ [(key, value)]) (put key value merged) := by
  constructor
  · rw [keys_append, keys_put]
    exact isMerged.firsts.snoc key
  · intro other otherValue
    rw [mem_put isMerged.firsts.distinct, isLast_snoc, isMerged.carries]

theorem merge_snoc (entries : List (String × Json)) (entry : String × Json) :
    merge (entries ++ [entry]) = put entry.1 entry.2 (merge entries) :=
  List.foldl_append

theorem isMerged_merge (entries : List (String × Json)) : IsMerged entries (merge entries) := by
  induction entries using List.reverseRecOn with
  | nil =>
      refine ⟨firsts_nil, fun key value => ?_⟩
      exact iff_of_false List.not_mem_nil not_isLast_nil
  | append_singleton entries entry induction =>
      rw [merge_snoc]
      exact induction.put entry.1 entry.2

theorem IsMerged.pairwise (isMerged : IsMerged entries merged) :
    merged.Pairwise fun earlier later =>
      (keys entries).idxOf earlier.1 ≤ (keys entries).idxOf later.1 :=
  pairwise_keys.mp isMerged.firsts.ordered

/-- Places and values determine the merged entries. -/
theorem IsMerged.unique (isMerged : IsMerged entries merged)
    (othersAreMerged : IsMerged entries others) : merged = others := by
  have sameMembers : merged.Perm others := by
    refine (List.perm_ext_iff_of_nodup (.of_map _ isMerged.firsts.distinct)
      (.of_map _ othersAreMerged.firsts.distinct)).mpr fun entry => ?_
    rw [isMerged.carries entry.1 entry.2, othersAreMerged.carries entry.1 entry.2]
  refine sameMembers.eq_of_pairwise ?_ isMerged.pairwise othersAreMerged.pairwise
  intro first second isFirst isSecond before after
  have firstIsLast := (isMerged.carries first.1 first.2).mp isFirst
  have secondIsLast := (othersAreMerged.carries second.1 second.2).mp isSecond
  have sameKey := (List.idxOf_inj firstIsLast.mem_keys).mp (Nat.le_antisymm before after)
  rw [← sameKey] at secondIsLast
  exact Prod.ext sameKey (firstIsLast.unique secondIsLast)

theorem isMerged_self (distinct : (keys entries).Nodup) : IsMerged entries entries :=
  ⟨firsts_self distinct, fun _ _ => (isLast_iff_mem distinct).symm⟩

theorem merge_eq_iff : merge entries = merged ↔ IsMerged entries merged :=
  ⟨fun isMerge => isMerge ▸ isMerged_merge entries, (isMerged_merge entries).unique⟩

theorem merge_merge (entries : List (String × Json)) : merge (merge entries) = merge entries :=
  merge_eq_iff.mpr (isMerged_self (isMerged_merge entries).firsts.distinct)

/-! ## Numbers -/

open Number

theorem natAbs_truncate_lt {number : Number} {bound : Nat}
    (isBelow : number.magnitudeBelow bound = true) : number.truncate.natAbs < bound := by
  cases number with
  | finite negative units representable =>
      rw [Number.magnitudeBelow, decide_eq_true_eq] at isBelow
      rw [Number.truncate, natAbs_signedUnits]
      exact Nat.div_lt_of_lt_mul (Nat.mul_comm bound unitsPerOne ▸ isBelow)
  | _ => cases isBelow

/-- Integers of at most 53 bits are read back as they are. -/
theorem ofNumber_ofInt {value : Int} (small : value.natAbs < twoPow 53) :
    ofNumber (.ofInt value) = .integer value := by
  rw [ofInt, ofNat_eq (Nat.le_of_lt small), ofNumber_finite, Nat.mul_mod_left,
    Nat.mul_div_cancel _ unitsPerOne_pos, signedUnits_natAbs]
  exact if_pos ⟨rfl, Nat.mul_lt_mul_of_pos_right small unitsPerOne_pos⟩

end Json

/-! ## Elements -/

namespace Element

open Entries Json

theorem itemsToJson_eq (items : List Element) : itemsToJson items = items.map toJson := by
  induction items with
  | nil => rfl
  | cons item items induction => rw [itemsToJson, induction, List.map_cons]

theorem entriesToJson_eq (entries : List (String × Element)) :
    entriesToJson entries = entries.map fun entry => (entry.1, toJson entry.2) := by
  induction entries with
  | nil => rfl
  | cons entry entries induction => rw [entriesToJson, induction, List.map_cons]

/-- The JSON forms of an element. A keyed collection has its keys in the order in which they occur
first, and under each key a form of the last value. -/
inductive HasForm : Element → Json → Prop where
  | scalar {declared : Option Declaration} (value : Scalar) :
      HasForm (.scalar declared value) value.toJson
  | array {declared : Option Declaration} {items : List Element} {values : List Json}
      (forms : List.Forall₂ HasForm items values) :
      HasForm (.array declared items) (.array values)
  | keyed {declared : Option Declaration} {shape : Keyed} {entries : List (String × Element)}
      {merged : List (String × Json)} (firsts : Firsts (keys entries) (keys merged))
      (forms : ∀ key value, IsLast entries key value → ∀ json, (key, json) ∈ merged →
        HasForm value json) :
      HasForm (.keyed declared shape entries) (.object merged)

variable {entries : List (String × Element)} {merged : List (String × Json)}
  {items : List Element} {values : List Json}

theorem isMerged_entriesToJson_iff :
    IsMerged (entriesToJson entries) merged ↔
      Firsts (keys entries) (keys merged) ∧
        ∀ key value, IsLast entries key value → ∀ json, (key, json) ∈ merged →
          json = value.toJson := by
  rw [entriesToJson_eq]
  constructor
  · intro isMerged
    refine ⟨keys_map toJson entries ▸ isMerged.firsts, ?_⟩
    intro key value isLast json member
    obtain ⟨other, otherIsLast, rfl⟩ := isLast_map.mp ((isMerged.carries key json).mp member)
    rw [isLast.unique otherIsLast]
  · rintro ⟨firsts, forms⟩
    refine ⟨by rwa [keys_map], fun key json => ?_⟩
    rw [isLast_map]
    constructor
    · intro member
      have isKey := (firsts.mem_iff key).mp (List.mem_map_of_mem member)
      obtain ⟨value, isLast⟩ := exists_isLast isKey
      exact ⟨value, isLast, (forms key value isLast json member).symm⟩
    · rintro ⟨value, isLast, rfl⟩
      have isKey := (firsts.mem_iff key).mpr isLast.mem_keys
      obtain ⟨⟨_, json⟩, member, rfl⟩ := List.mem_map.mp isKey
      rwa [← forms _ value isLast json member]

theorem forall₂_iff_eq_itemsToJson {IsFormOf : Element → Json → Prop}
    (isOnly : ∀ item ∈ items, ∀ json, IsFormOf item json ↔ json = item.toJson) :
    List.Forall₂ IsFormOf items values ↔ values = itemsToJson items := by
  induction items generalizing values with
  | nil => exact List.forall₂_nil_left_iff
  | cons item items induction =>
      obtain ⟨itemIsOnly, restAreOnly⟩ := List.forall_mem_cons.mp isOnly
      simp only [List.forall₂_cons_left_iff, itemIsOnly, induction restAreOnly, itemsToJson]
      constructor
      · rintro ⟨_, _, rfl, rfl, rfl⟩
        rfl
      · rintro rfl
        exact ⟨_, _, rfl, rfl, rfl⟩

/-- An element has one form. -/
theorem hasForm_iff {element : Element} {json : Json} :
    element.HasForm json ↔ json = element.toJson := by
  induction element using induct generalizing json with
  | step element induction =>
      cases element with
      | scalar declared value =>
          constructor
          · intro hasForm
            cases hasForm with
            | scalar => rfl
          · rintro rfl
            exact .scalar value
      | array declared items =>
          have formsIff {values : List Json} :
              List.Forall₂ HasForm items values ↔ values = itemsToJson items :=
            forall₂_iff_eq_itemsToJson fun item isItem json => induction item isItem
          constructor
          · intro hasForm
            cases hasForm with
            | array forms => rw [formsIff.mp forms, toJson]
          · rintro rfl
            exact .array (formsIff.mpr rfl)
      | keyed declared shape entries =>
          have inner {key : String} {value : Element} (isLast : IsLast entries key value)
              (json : Json) : value.HasForm json ↔ json = value.toJson :=
            induction value (List.mem_map.mpr ⟨(key, value), isLast.mem, rfl⟩)
          constructor
          · intro hasForm
            cases hasForm with
            | keyed firsts forms =>
                have isMerged := isMerged_entriesToJson_iff.mpr
                  ⟨firsts, fun key value isLast json member =>
                    (inner isLast json).mp (forms key value isLast json member)⟩
                rw [toJson, merge_eq_iff.mpr isMerged]
          · rintro rfl
            obtain ⟨firsts, forms⟩ :=
              isMerged_entriesToJson_iff.mp (isMerged_merge (entriesToJson entries))
            exact .keyed firsts fun key value isLast json member =>
              (inner isLast json).mpr (forms key value isLast json member)

/-! ## Forms read back -/

theorem toJson_ofJson_ofNumber (number : Number) :
    (ofJson (.ofNumber number)).toJson = .ofNumber number := by
  by_cases isWhole : number.isIntegral && number.magnitudeBelow (twoPow 53)
  · have isInteger : Json.ofNumber number = .integer number.truncate := if_pos isWhole
    rw [isInteger]
    exact ofNumber_ofInt (natAbs_truncate_lt (Bool.and_eq_true_iff.mp isWhole).2)
  · cases isFinite : number.isFinite with
    | true =>
        have isNumber : Json.ofNumber number = .number number := by
          rw [Json.ofNumber, if_neg isWhole, if_pos isFinite]
        rw [isNumber]
        exact isNumber
    | false =>
        rw [ofNumber_of_not_finite isFinite]
        rfl

theorem itemsToJson_itemsOfJson
    (areForms : ∀ json ∈ values, (ofJson json).toJson = json) :
    itemsToJson (itemsOfJson values) = values := by
  rw [itemsToJson_eq, itemsOfJson_eq, List.map_map]
  exact (List.map_congr_left areForms).trans (List.map_id values)

theorem entriesToJson_entriesOfJson
    (areForms : ∀ entry ∈ merged, (ofJson entry.2).toJson = entry.2) :
    entriesToJson (entriesOfJson merged) = merged := by
  rw [entriesToJson_eq, entriesOfJson_eq, List.map_map]
  refine (List.map_congr_left fun entry member => ?_).trans (List.map_id merged)
  exact Prod.ext rfl (areForms entry member)

/-- A form that is read back has itself as its form. -/
theorem toJson_ofJson_toJson (element : Element) :
    (ofJson element.toJson).toJson = element.toJson := by
  induction element using induct with
  | step element induction =>
      cases element with
      | scalar declared value =>
          cases value with
          | number value => exact toJson_ofJson_ofNumber value
          | _ => rfl
      | array declared items =>
          rw [toJson, ofJson, toJson, itemsToJson_itemsOfJson]
          rw [itemsToJson_eq]
          exact List.forall_mem_map.mpr induction
      | keyed declared shape entries =>
          rw [toJson, ofJson, toJson, entriesToJson_entriesOfJson, merge_merge]
          rintro ⟨key, json⟩ member
          have isLast := ((isMerged_merge (entriesToJson entries)).carries key json).mp member
          rw [entriesToJson_eq, isLast_map] at isLast
          obtain ⟨value, isLast, rfl⟩ := isLast
          exact induction value (List.mem_map.mpr ⟨(key, value), isLast.mem, rfl⟩)

/-- The JSON form of an element is the only one that has, at every depth, the keys of each object
distinct, in the order in which they occur first and with the forms of their last values. When it
is read back, it is the JSON form of what is read. -/
theorem toJson_isNormalForm (element : Element) :
    (∀ json, element.HasForm json ↔ json = element.toJson) ∧
      (ofJson element.toJson).toJson = element.toJson :=
  ⟨fun _ => hasForm_iff, toJson_ofJson_toJson element⟩

example :
    (Element.keyed none .map
      [("b", .scalar none (.missing .array)), ("a", .scalar none (.number .nan)),
        ("b", .scalar none (.number (.zero true)))]).toJson =
      .object [("b", .integer 0), ("a", .null)] := by
  decide +kernel

end Element

end TreeQuery
