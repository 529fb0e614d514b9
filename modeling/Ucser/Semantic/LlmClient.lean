import Ucser.Core.Types
import Ucser.Lib.JsonPrefix

/-!
# JSON out of a model's answer: `semantic/llm_client.py`

`_extract_json` takes what stands between the opening fence of a JSON block and the next
fence, wherever that one is: in a string of the document, too.

* `searchFence`, `searchBraces` — the two regular expressions.
* `extractJson` — the method; a text that is not JSON raises.
* `lazyGroup_spec` — what the lazy group holds.
* `extractJson_answer_iff` — **extraction inverts fencing** exactly for the documents without a
  fence in them; `extractJson_dumps_iff` says so of the documents `json.dumps` writes.
-/

namespace Ucser
namespace LlmClient

/-! ## The expressions -/

/-- The fence. -/
def fence : List Char := "```".toList

/-- The opening fence of a JSON block. -/
def jsonFence : List Char := "```json".toList

/-- A fence, perhaps after blanks: the end of the first expression. -/
def closes (s : List Char) : Bool := fence.isPrefixOf (s.dropWhile Text.isSpace)

/-- The lazy group: as little as lets the end match. -/
def lazyGroup : List Char → Option (List Char)
  | [] => none
  | c :: s => if closes (c :: s) then some [] else (lazyGroup s).map (c :: ·)

/-- The group of the first expression, matched at the head of a text.  The blanks behind the
opening fence are all taken: where the rest does not match without them, it does not match with
some of them either. -/
def matchFence (s : List Char) : Option (List Char) :=
  if jsonFence.isPrefixOf s then lazyGroup ((s.drop jsonFence.length).dropWhile Text.isSpace)
  else none

/-- `re.search` with the first expression. -/
def searchFence : List Char → Option (List Char)
  | [] => none
  | c :: s => (matchFence (c :: s)).or (searchFence s)

/-- The greedy end of the second expression: up to the last closing brace. -/
def untilLastBrace : List Char → Option (List Char)
  | [] => none
  | c :: s => ((untilLastBrace s).map (c :: ·)).or (if c = '}' then some [c] else none)

/-- `re.search` with the second expression: from the first opening brace on. -/
def searchBraces : List Char → Option (List Char)
  | [] => none
  | c :: s => (if c = '{' then (untilLastBrace s).map (c :: ·) else none).or (searchBraces s)

/-- `json.loads(match.group(1).strip())`. -/
def loadsGroup (group : List Char) : Except PyError Json.Value :=
  match Json.loads (String.ofList (Text.strip group)) with
  | some value => .ok value
  | none => .error (.valueError "json.decoder.JSONDecodeError")

/-- `_extract_json`. -/
def extractJson (text : String) : Except PyError Json.Value :=
  match searchFence text.toList with
  | some group => loadsGroup group
  | none =>
      match searchBraces text.toList with
      | some group => loadsGroup group
      | none => .error (.valueError "No valid JSON structure found in LLM response.")

/-! ## The opening fence -/

/-- No opening fence begins in front of one, in a text without a fence. -/
theorem matchFence_eq_none {s : List Char} (hne : s ≠ []) (hs : ¬ fence <:+: s)
    (rest : List Char) : matchFence (s ++ (jsonFence ++ rest)) = none := by
  rw [matchFence, if_neg]
  rw [List.isPrefixOf_iff_prefix]
  intro hprefix
  have hjson : jsonFence = ['\x60', '\x60', '\x60', 'j', 's', 'o', 'n'] := rfl
  match s, hne with
  | [a], _ => simp [hjson] at hprefix
  | [a, b], _ => simp [hjson] at hprefix
  | a :: b :: c :: s, _ =>
      have hfence : fence <+: (a :: b :: c :: s) ++ (jsonFence ++ rest) :=
        (List.prefix_append fence "json".toList).trans hprefix
      have hinside := List.prefix_of_prefix_length_le hfence (List.prefix_append _ _)
        (Nat.le_add_left 3 s.length)
      exact hs hinside.isInfix

theorem searchFence_append {before : List Char} (h : ¬ fence <:+: before) (rest : List Char) :
    searchFence (before ++ (jsonFence ++ rest)) = searchFence (jsonFence ++ rest) := by
  induction before with
  | nil => rfl
  | cons c before ih =>
      have hmatch := matchFence_eq_none (List.cons_ne_nil c before) h rest
      rw [List.cons_append] at hmatch ⊢
      rw [searchFence, hmatch, Option.none_or]
      exact ih fun hinside => h (hinside.trans (List.suffix_cons c before).isInfix)

/-! ## The lazy group -/

/-- **What the lazy group holds**: everything up to the first place where the end matches. -/
theorem lazyGroup_spec {s g : List Char} (h : lazyGroup s = some g) :
    ∃ tail, s = g ++ tail ∧ closes tail = true ∧
      ∀ u, u ≠ [] → u <:+ g → closes (u ++ tail) = false := by
  induction s generalizing g with
  | nil => exact absurd h (by simp [lazyGroup])
  | cons c s ih =>
      rw [lazyGroup] at h
      split_ifs at h with hcloses
      · obtain rfl := Option.some.inj h
        exact ⟨c :: s, rfl, hcloses, fun u hne hu => absurd (List.suffix_nil.mp hu) hne⟩
      · obtain ⟨g', hg', rfl⟩ := Option.map_eq_some_iff.mp h
        obtain ⟨tail, rfl, htail, hinside⟩ := ih hg'
        refine ⟨tail, rfl, htail, fun u hne hu => ?_⟩
        rcases List.suffix_cons_iff.mp hu with rfl | hu
        · simpa using hcloses
        · exact hinside u hne hu

/-- The first place where the end matches is where the group ends. -/
theorem lazyGroup_append {d tail : List Char}
    (h : ∀ u, u ≠ [] → u <:+ d → closes (u ++ tail) = false) (htail : closes tail = true) :
    lazyGroup (d ++ tail) = some d := by
  induction d with
  | nil =>
      cases tail with
      | nil => exact absurd htail (by decide)
      | cons c tail => rw [List.nil_append, lazyGroup, if_pos htail]
  | cons c d ih =>
      have hhead := h (c :: d) (List.cons_ne_nil c d) List.suffix_rfl
      rw [List.cons_append] at hhead ⊢
      rw [lazyGroup, hhead, ih fun u hne hu => h u hne (hu.trans (List.suffix_cons c d))]
      rfl

/-- A fence ends the group, if nothing in front of it does. -/
theorem exists_lazyGroup (u v : List Char) :
    ∃ g w, lazyGroup (u ++ (fence ++ v)) = some g ∧ u = g ++ w := by
  induction u with
  | nil => exact ⟨[], [], rfl, rfl⟩
  | cons c u ih =>
      obtain ⟨g, w, hg, rfl⟩ := ih
      rw [List.cons_append, lazyGroup]
      split_ifs
      · exact ⟨[], _, rfl, rfl⟩
      · exact ⟨c :: g, w, by rw [hg]; rfl, rfl⟩

/-- The group of a text that begins with no blank has none at either end. -/
theorem strip_lazyGroup {s g : List Char} (h : lazyGroup s = some g)
    (hs : ∀ c ∈ s.head?, Text.isSpace c = false) : Text.strip g = g := by
  obtain ⟨tail, rfl, htail, hinside⟩ := lazyGroup_spec h
  rw [Text.strip_eq_self_iff]
  constructor
  · intro c hc
    refine hs c ?_
    rw [List.head?_append, hc]
    rfl
  · intro c hc
    by_contra hblank
    obtain ⟨front, rfl⟩ := List.getLast?_eq_some_iff.mp hc
    have hlast := hinside [c] (List.cons_ne_nil c []) (List.suffix_append front [c])
    rw [List.singleton_append, closes,
      List.dropWhile_cons_of_pos (by simpa using hblank)] at hlast
    exact absurd (hlast.symm.trans htail) (by decide)

/-! ## Documents -/

/-- A document that reads as an object and is stripped ends in a brace. -/
theorem exists_brace {d : String} {kvs : List (String × Json.Value)}
    (hd : Json.loads d = some (.obj kvs)) (hstrip : Text.strip d.toList = d.toList) :
    ∃ front, d.toList = front ++ ['}'] := by
  obtain ⟨front, blanks, heq, hblanks⟩ := Json.exists_brace_of_loads hd
  rcases List.eq_nil_or_concat blanks with rfl | ⟨init, c, rfl⟩
  · exact ⟨front, heq⟩
  · have hlast : c ∈ d.toList.getLast? := by
      rw [heq, List.concat_eq_append, ← List.cons_append, ← List.append_assoc]
      exact List.getLast?_concat
    have hspace := (Text.strip_eq_self_iff.mp hstrip).2 c hlast
    have hblank := hblanks c (by simp)
    simp only [Json.isBlank, Bool.or_eq_true, decide_eq_true_eq] at hblank
    obtain ((rfl | rfl) | rfl) | rfl := hblank <;> exact absurd hspace (by decide)

/-- Nothing inside a document without a fence ends the group. -/
theorem closes_suffix_document {front u tail : List Char}
    (hfence : ¬ fence <:+: front ++ ['}']) (hne : u ≠ []) (hu : u <:+ front ++ ['}']) :
    closes (u ++ tail) = false := by
  obtain hnil | ⟨y, rfl, hy⟩ := List.suffix_concat_iff.mp hu
  · exact absurd hnil hne
  · have hdrop : (y ++ ['}'] ++ tail).dropWhile Text.isSpace =
        y.dropWhile Text.isSpace ++ ['}'] ++ tail := by
      rw [List.append_assoc, List.dropWhile_append]
      split_ifs with hempty
      · rw [List.isEmpty_iff.mp hempty]
        rfl
      · rw [List.append_assoc]
    have hsuffix : y.dropWhile Text.isSpace ++ ['}'] <:+ front ++ ['}'] :=
      List.suffix_append_self_iff.mpr ((List.dropWhile_suffix _).trans hy)
    rw [closes, hdrop, Bool.eq_false_iff, ne_eq, List.isPrefixOf_iff_prefix]
    generalize y.dropWhile Text.isSpace = z at hsuffix
    intro hprefix
    match z, hsuffix with
    | [], _ => simp [fence] at hprefix
    | [a], _ => simp [fence] at hprefix
    | a :: b :: z, hsuffix =>
        have hinside := List.prefix_of_prefix_length_le hprefix (List.prefix_append _ tail)
          (by simp [fence])
        exact hfence (hinside.isInfix.trans hsuffix.isInfix)

/-! ## Extraction -/

/-- An answer: a document in a JSON block, with prose around. -/
def answer (before pad : List Char) (d : String) (pad' after : List Char) : String :=
  String.ofList (before ++ (jsonFence ++ (pad ++ (d.toList ++ (pad' ++ (fence ++ after))))))

/-- Of an answer whose prose in front has no fence, the lazy group is matched from the
document on. -/
theorem searchFence_answer {before pad pad' after : List Char} {d : String}
    (hbefore : ¬ fence <:+: before) (hpad : Text.Blank pad)
    (hd : ∀ c ∈ (d.toList ++ (pad' ++ (fence ++ after))).head?, Text.isSpace c = false)
    {group : List Char} (hgroup : lazyGroup (d.toList ++ (pad' ++ (fence ++ after))) = some group) :
    searchFence (answer before pad d pad' after).toList = some group := by
  have hmatch : matchFence (jsonFence ++ (pad ++ (d.toList ++ (pad' ++ (fence ++ after))))) =
      some group := by
    rw [matchFence, if_pos (List.isPrefixOf_iff_prefix.mpr (List.prefix_append _ _)),
      List.drop_left, List.dropWhile_append_of_pos hpad, Text.dropWhile_eq_self hd, hgroup]
  rw [answer, String.toList_ofList, searchFence_append hbefore]
  show (matchFence (jsonFence ++ _)).or _ = _
  rw [hmatch, Option.some_or]

section Answer

variable {before pad pad' after : List Char} {d : String} {kvs : List (String × Json.Value)}
  (hbefore : ¬ fence <:+: before) (hpad : Text.Blank pad)
  (hstrip : Text.strip d.toList = d.toList) (hd : Json.loads d = some (.obj kvs))
include hstrip hd

/-- A document begins with no blank, whatever follows it. -/
theorem head_document (tail : List Char) :
    ∀ c ∈ (d.toList ++ tail).head?, Text.isSpace c = false := by
  obtain ⟨front, hfront⟩ := exists_brace hd hstrip
  intro c hc
  refine (Text.strip_eq_self_iff.mp hstrip).1 c ?_
  rwa [List.head?_append_of_ne_nil _ (by rw [hfront]; simp)] at hc

include hbefore hpad

/-- A document from which the object is extracted has no fence in it. -/
theorem no_fence_of_extractJson
    (hextract : extractJson (answer before pad d pad' after) = .ok (.obj kvs)) :
    ¬ fence <:+: d.toList := by
  have hhead := head_document hstrip hd (pad' ++ (fence ++ after))
  rintro ⟨u, v, huv⟩
  -- the group ends in front of the fence in the document
  obtain ⟨g, w, hg, rfl⟩ := exists_lazyGroup u (v ++ (pad' ++ (fence ++ after)))
  have hdoc : g ++ w ++ (fence ++ (v ++ (pad' ++ (fence ++ after)))) =
      d.toList ++ (pad' ++ (fence ++ after)) := by
    rw [← huv]
    simp
  rw [hdoc] at hg
  rw [extractJson, searchFence_answer hbefore hpad hhead hg] at hextract
  simp only [loadsGroup, strip_lazyGroup hg hhead] at hextract
  cases hloads : Json.loads (String.ofList g) with
  | none =>
      rw [hloads] at hextract
      exact absurd hextract (by simp)
  | some value =>
      rw [hloads] at hextract
      obtain rfl := Except.ok.inj hextract
      -- and a text that reads as the object cannot go on
      have hmore : d = String.ofList g ++ String.ofList (w ++ fence ++ v) := by
        rw [← String.ofList_toList (s := d), ← huv]
        simp
      have hrest : Json.skipBlanks (String.ofList (w ++ fence ++ v)).toList ≠ [] := by
        rw [String.toList_ofList]
        intro hblank
        have hall := List.dropWhile_eq_nil_iff.mp hblank
        exact absurd (hall (fence.head (by decide)) (by simp [fence])) (by decide)
      have hnone := Json.loads_append_eq_none hloads hrest
      rw [← hmore, hd] at hnone
      exact absurd hnone (by simp)

/-- From a document without a fence the object is extracted. -/
theorem extractJson_of_no_fence (hpad' : Text.Blank pad') (hfence : ¬ fence <:+: d.toList) :
    extractJson (answer before pad d pad' after) = .ok (.obj kvs) := by
  have hhead := head_document hstrip hd (pad' ++ (fence ++ after))
  obtain ⟨front, hfront⟩ := exists_brace hd hstrip
  rw [hfront] at hfence
  have hclose : closes (pad' ++ (fence ++ after)) = true := by
    rw [closes, List.dropWhile_append_of_pos hpad']
    rfl
  have hgroup : lazyGroup (d.toList ++ (pad' ++ (fence ++ after))) = some d.toList := by
    refine lazyGroup_append (fun u hne hu => ?_) hclose
    rw [hfront] at hu
    exact closes_suffix_document hfence hne hu
  rw [extractJson, searchFence_answer hbefore hpad hhead hgroup]
  simp only [loadsGroup, hstrip, String.ofList_toList, hd]

end Answer

/-- **When extraction inverts fencing.**  Of a stripped document that reads as an object, in a
JSON block behind prose without a fence, the object is extracted exactly when the document has
no fence in it. -/
theorem extractJson_answer_iff {before pad pad' after : List Char} {d : String}
    {kvs : List (String × Json.Value)} (hbefore : ¬ fence <:+: before) (hpad : Text.Blank pad)
    (hpad' : Text.Blank pad') (hstrip : Text.strip d.toList = d.toList)
    (hd : Json.loads d = some (.obj kvs)) :
    extractJson (answer before pad d pad' after) = .ok (.obj kvs) ↔ ¬ fence <:+: d.toList :=
  ⟨no_fence_of_extractJson hbefore hpad hstrip hd,
    extractJson_of_no_fence hbefore hpad hstrip hd hpad'⟩

/-- The object comes back whose one value is `null`. -/
theorem extractJson_null :
    extractJson (answer "Sure:\n".toList ['\n'] (Json.dumpsPlain (.obj [("a", .null)])) ['\n']
      []) = .ok (.obj [("a", .null)]) :=
  (extractJson_answer_iff (by decide) (by decide) (by decide) (by decide)
    (Json.loads_dumpsPlain (by decide))).mpr (by decide)

/-- A document with a fence in a string is cut off there. -/
theorem extractJson_fence_in_string :
    ¬ ∀ (before pad pad' after : List Char) (d : String) (kvs : List (String × Json.Value)),
      ¬ fence <:+: before → ¬ fence <:+: after → Text.Blank pad → Text.Blank pad' →
        Text.strip d.toList = d.toList → Json.loads d = some (.obj kvs) →
          extractJson (answer before pad d pad' after) = .ok (.obj kvs) := by
  intro hextract
  have hobject := hextract [] ['\n'] ['\n'] [] (Json.dumpsPlain (.obj [("a", .str "```")]))
    [("a", .str "```")] (by decide) (by decide) (by decide) (by decide) (by decide)
    (Json.loads_dumpsPlain (by decide))
  have hdocument := no_fence_of_extractJson (by decide) (by decide) (by decide)
    (Json.loads_dumpsPlain (by decide)) hobject
  exact absurd hdocument (by decide)

/-! ## What `json.dumps` writes -/

theorem exists_concat_renderFieldsWith (pad : List Char) (kvs : List (String × Json.Value)) :
    ∃ front, Json.renderFieldsWith pad kvs = front ++ ['}'] := by
  induction kvs with
  | nil => exact ⟨[], rfl⟩
  | cons p kvs ih =>
      obtain ⟨front, hfront⟩ := ih
      rw [Json.renderFieldsWith, hfront]
      exact ⟨',' :: (pad ++ (Json.renderStr p.1 ++
        ':' :: (pad ++ (Json.renderWith pad p.2 ++ front)))), by simp⟩

/-- The text of an object is stripped. -/
theorem strip_dumpsPlain (kvs : List (String × Json.Value)) :
    Text.strip (Json.dumpsPlain (.obj kvs)).toList = (Json.dumpsPlain (.obj kvs)).toList := by
  have hends : ∃ middle, Json.renderWith [' '] (.obj kvs) = '{' :: (middle ++ ['}']) := by
    cases kvs with
    | nil => exact ⟨[], rfl⟩
    | cons p kvs =>
        obtain ⟨front, hfront⟩ := exists_concat_renderFieldsWith [' '] kvs
        rw [Json.renderWith, hfront]
        exact ⟨Json.renderStr p.1 ++ ':' :: ([' '] ++ (Json.renderWith [' '] p.2 ++ front)),
          by simp⟩
  obtain ⟨middle, hmiddle⟩ := hends
  rw [Json.dumpsPlain, String.toList_ofList, hmiddle, Text.strip_eq_self_iff]
  constructor
  · intro c hc
    obtain rfl := Option.some.inj hc
    rfl
  · intro c hc
    rw [← List.cons_append, List.getLast?_concat] at hc
    obtain rfl := Option.some.inj hc
    rfl

/-- Every object that Python can hold is extracted from the block that `json.dumps` was written
into, unless a fence stands in its text. -/
theorem extractJson_dumps_iff {before pad pad' after : List Char}
    {kvs : List (String × Json.Value)} (hbefore : ¬ fence <:+: before) (hpad : Text.Blank pad)
    (hpad' : Text.Blank pad') (hkvs : (Json.Value.obj kvs).wellFormed = true) :
    extractJson (answer before pad (Json.dumpsPlain (.obj kvs)) pad' after) = .ok (.obj kvs) ↔
      ¬ fence <:+: (Json.dumpsPlain (.obj kvs)).toList :=
  ⟨no_fence_of_extractJson hbefore hpad (strip_dumpsPlain kvs) (Json.loads_dumpsPlain hkvs),
    extractJson_of_no_fence hbefore hpad (strip_dumpsPlain kvs) (Json.loads_dumpsPlain hkvs) hpad'⟩

end LlmClient
end Ucser
