import Two09.Lib.JsonPrint
import Two09.Share.Push

/-!
# The index of a binary cache

`binary_cache_push_index_item`: the index is fetched, the item appended, and the whole uploaded. What cannot be
fetched is taken for an index that is not there yet.
-/

namespace Two09.Share

open Two09.Lib Two09.Store

/-! ### Fetching -/

/-- A status that is neither success nor "not found". -/
structure ErrorStatus where
  code : Nat
  ne_ok : code ≠ 200
  ne_notFound : code ≠ 404

/-- What becomes of a request: the server answers with what it has, it reports an error, or there is no answer. -/
inductive Exchange
  | answered (page : Bytes)
  | refused (status : ErrorStatus) (page : Bytes)
  | broken

/-- The status and the body of the answer to a request for what a server has, or a page if it has nothing. -/
def Exchange.response (content : Option Bytes) : Exchange → Option (Nat × Bytes)
  | answered page =>
    match content with
    | some body => some (200, body)
    | none => some (404, page)
  | refused status page => some (status.code, page)
  | broken => none

/-- `http_get` -/
def httpGet : Option (Nat × Bytes) → Except Int Bytes
  | none => .error (-1)
  | some (code, body) => if code = 404 then .error (-2) else if code ≠ 200 then .error (-1) else .ok body

/-- What `aws s3 cp` copies. -/
def Exchange.copied (content : Option Bytes) : Exchange → Option Bytes
  | answered _ => content
  | _ => none

/-- `s3_get_to_mem`. Any failure is taken for "not found". -/
def s3GetToMem : Option Bytes → Except Int Bytes
  | none => .error (-2)
  | some body => .ok body

def isHttpUrl (url : Bytes) : Bool := (ascii "http://").isPrefixOf url || (ascii "https://").isPrefixOf url

def isS3Url (url : Bytes) : Bool := (ascii "s3://").isPrefixOf url

/-- `cache_get` of what is at an URL. -/
def cacheGetIndex (url : Bytes) (content : Option Bytes) (exchange : Exchange) : Except Int Bytes :=
  if isHttpUrl url then httpGet (exchange.response content)
  else if isS3Url url then s3GetToMem (exchange.copied content)
  else .error (-1)

/-- `binary_cache_fetch_index` -/
def binaryCacheFetchIndex (url : Bytes) (content : Option Bytes) (exchange : Exchange) : Option Json :=
  match cacheGetIndex url content exchange with
  | .error _ => none
  | .ok body => if body = [] then none else Json.parse body

/-! ### Appending -/

/-- `cJSON_GetObjectItemCaseSensitive(root, "items")` of an object with these members, if it is an array. -/
def itemsOf : List (Bytes × Json) → Option (List Json)
  | [] => none
  | (key, value) :: members => if cstr key = ascii "items" then value.items? else itemsOf members

/-- The items of an index. -/
def indexItems : Json → Option (List Json)
  | .object members => itemsOf members
  | _ => none

/-- The index that is there in the end when none was found. -/
def freshIndex : List (Bytes × Json) := [(ascii "version", .number (ascii "1")), (ascii "items", .array [])]

/-- The members of the index that the item is appended to. -/
def indexMembers : Option Json → List (Bytes × Json)
  | some (.object members) => if (itemsOf members).isSome then members else freshIndex
  | _ => freshIndex

/-- `cJSON_AddItemToArray` -/
def addItemToArray (item : Json) : Json → Json
  | .array items => .array (items ++ [item])
  | value => value

/-- The members, with the item in the array of that name. -/
def appendItem (item : Json) : List (Bytes × Json) → List (Bytes × Json)
  | [] => []
  | (key, value) :: members =>
    if cstr key = ascii "items" then (key, addItemToArray item value) :: members
    else (key, value) :: appendItem item members

/-- `cJSON_ReplaceItemInObject(root, "updated_at", …)`, whatever the case of the letters. -/
def replaceUpdated (now : Bytes) : List (Bytes × Json) → List (Bytes × Json)
  | [] => []
  | (key, value) :: members =>
    if (cstr key).map Json.toLower = ascii "updated_at" then (ascii "updated_at", .number now) :: members
    else (key, value) :: replaceUpdated now members

/-- The time of the update. -/
def setUpdated (now : Bytes) (members : List (Bytes × Json)) : List (Bytes × Json) :=
  if members.any fun m => cstr m.1 = ascii "updated_at" then replaceUpdated now members
  else members ++ [(ascii "updated_at", .number now)]

section Push
variable (fmt : Json.NumberFormat) (up : Uplink)

def indexUrl (base : Bytes) : Bytes := urlJoin base (ascii "index.json")

/-- `binary_cache_push_index_item`, and what the server has if 0 is returned. An item that `cJSON_Duplicate` refuses is
nested too deep to be printed. -/
def binaryCachePushIndexItem (base : Bytes) (item : Json) (now : Bytes) (server : Server) (exchange : Exchange) :
    Option Server :=
  let root := binaryCacheFetchIndex (indexUrl base) (server (indexUrl base)) exchange
  (Json.print fmt (.object (setUpdated now (appendItem item (indexMembers root))))).bind fun text =>
    cachePut up server (indexUrl base) text

/-! ### What a push is for -/

/-- The items that an index lists; what is not an index lists none. -/
def listedIn (content : Option Bytes) : List Json := ((content.bind Json.parse).bind indexItems).getD []

/-- If 0 is returned, what is uploaded lists what was listed before, in the order it was listed in, and then the
item, each as it is printed. -/
def KeepsItems (base : Bytes) (item : Json) (now : Bytes) (server : Server) (exchange : Exchange) : Prop :=
  ∀ server', binaryCachePushIndexItem fmt up base item now server exchange = some server' →
    listedIn (server' (indexUrl base)) = (listedIn (server (indexUrl base)) ++ [item]).map (Json.reread fmt)

end Push

section
variable {fmt : Json.NumberFormat} {up : Uplink} {base now : Bytes} {item : Json} {server server' : Server}
  {exchange : Exchange} {members : List (Bytes × Json)} {items : List Json}

lemma isUrl_eq (url : Bytes) : isUrl url = (isHttpUrl url || isS3Url url) := rfl

lemma parse_nil : Json.parse [] = none := by decide

/-- What is fetched from a server that answers. -/
lemma binaryCacheFetchIndex_answered {url : Bytes} (hurl : isUrl url = true) (content : Option Bytes) (page : Bytes) :
    binaryCacheFetchIndex url content (.answered page) = content.bind Json.parse := by
  have hget : cacheGetIndex url content (.answered page) = match content with
      | some body => .ok body
      | none => .error (-2) := by
    unfold cacheGetIndex
    split_ifs with hhttp hs3
    · cases content <;> rfl
    · cases content <;> rfl
    · rw [isUrl_eq, Bool.or_eq_true] at hurl
      exact absurd hurl (by simp [hhttp, hs3])
  unfold binaryCacheFetchIndex
  rw [hget]
  cases content with
  | none => rfl
  | some body =>
    show (if body = [] then none else Json.parse body) = Json.parse body
    split_ifs with hnil
    · rw [hnil, parse_nil]
    · rfl

/-- Nothing is fetched without an answer. -/
lemma binaryCacheFetchIndex_failed {url : Bytes} {content : Option Bytes} (h : ∀ page, exchange ≠ .answered page) :
    binaryCacheFetchIndex url content exchange = none := by
  have hget : ∃ rc, cacheGetIndex url content exchange = .error rc := by
    unfold cacheGetIndex
    split_ifs
    · cases exchange with
      | answered page => exact absurd rfl (h page)
      | refused status page =>
        refine ⟨-1, ?_⟩
        rw [Exchange.response, httpGet, if_neg status.ne_notFound, if_pos status.ne_ok]
      | broken => exact ⟨_, rfl⟩
    · cases exchange with
      | answered page => exact absurd rfl (h page)
      | refused status page => exact ⟨_, rfl⟩
      | broken => exact ⟨_, rfl⟩
    · exact ⟨_, rfl⟩
  obtain ⟨rc, hrc⟩ := hget
  unfold binaryCacheFetchIndex
  rw [hrc]

lemma itemsOf_indexMembers (root : Option Json) :
    itemsOf (indexMembers root) = some ((root.bind indexItems).getD []) := by
  match root with
  | none => rfl
  | some (.object members) =>
    show itemsOf (if (itemsOf members).isSome then members else freshIndex) = some ((itemsOf members).getD [])
    cases hitems : itemsOf members with
    | none => rfl
    | some items => exact hitems
  | some .null | some (.bool _) | some (.number _) | some (.string _) | some (.array _) => rfl

lemma itemsOf_appendItem (h : itemsOf members = some items) :
    itemsOf (appendItem item members) = some (items ++ [item]) := by
  induction members with
  | nil => cases h
  | cons m members ih =>
    obtain ⟨key, value⟩ := m
    rw [itemsOf] at h
    rw [appendItem]
    split_ifs at h ⊢ with hkey
    · cases value with
      | array items' =>
        obtain rfl := Option.some.inj h
        rw [addItemToArray, itemsOf, if_pos hkey]
        rfl
      | _ => cases h
    · rw [itemsOf, if_neg hkey]
      exact ih h

lemma itemsOf_replaceUpdated : itemsOf (replaceUpdated now members) = itemsOf members := by
  induction members with
  | nil => rfl
  | cons m members ih =>
    obtain ⟨key, value⟩ := m
    rw [replaceUpdated, itemsOf]
    split_ifs with hupdated hkey
    · rw [hkey] at hupdated
      exact absurd hupdated (by decide)
    · exact if_neg (by decide)
    · exact if_pos (by assumption)
    · rw [itemsOf, if_neg (by assumption), ih]

lemma itemsOf_append (h : itemsOf members = some items) (more : List (Bytes × Json)) :
    itemsOf (members ++ more) = some items := by
  induction members with
  | nil => cases h
  | cons m members ih =>
    obtain ⟨key, value⟩ := m
    rw [itemsOf] at h
    rw [List.cons_append, itemsOf]
    split_ifs at h ⊢
    · exact h
    · exact ih h

lemma itemsOf_setUpdated (h : itemsOf members = some items) : itemsOf (setUpdated now members) = some items := by
  unfold setUpdated
  split_ifs
  · rw [itemsOf_replaceUpdated, h]
  · exact itemsOf_append h _

lemma itemsOf_reread (h : itemsOf members = some items) :
    itemsOf (Json.rereadMembers fmt members) = some (items.map (Json.reread fmt)) := by
  induction members with
  | nil => cases h
  | cons m members ih =>
    obtain ⟨key, value⟩ := m
    have hcstr : cstr (cstr key) = cstr key := cstr_eq_self (zero_notMem_cstr key)
    rw [itemsOf] at h
    rw [Json.rereadMembers, itemsOf, hcstr]
    split_ifs at h ⊢
    · cases value with
      | array items' =>
        obtain rfl := Option.some.inj h
        rw [Json.reread, Json.rereadElements_eq_map]
        rfl
      | _ => cases h
    · exact ih h

/-- **What is uploaded** lists what was fetched, and the item. -/
lemma listedIn_pushed (h : binaryCachePushIndexItem fmt up base item now server exchange = some server') :
    listedIn (server' (indexUrl base)) =
      (((binaryCacheFetchIndex (indexUrl base) (server (indexUrl base)) exchange).bind indexItems).getD [] ++ [item]).map
        (Json.reread fmt) := by
  unfold binaryCachePushIndexItem at h
  obtain ⟨text, htext, hput⟩ := Option.bind_eq_some_iff.1 h
  have hcontent : server' (indexUrl base) = some text := by
    unfold cachePut at hput
    split_ifs at hput
    obtain rfl := Option.some.inj hput
    exact if_pos rfl
  have hitems := @itemsOf_reread fmt _ _ (@itemsOf_setUpdated now _ _ (@itemsOf_appendItem item _ _
    (itemsOf_indexMembers (binaryCacheFetchIndex (indexUrl base) (server (indexUrl base)) exchange))))
  have hindex : ∀ ms, indexItems (Json.reread fmt (.object ms)) = itemsOf (Json.rereadMembers fmt ms) := fun ms => by
    rw [Json.reread, indexItems]
  unfold listedIn
  rw [hcontent, Option.bind_some, Json.parse_print htext, Option.bind_some, hindex, hitems, Option.getD_some]

lemma nesting_fresh (now : Bytes) (item : Json) :
    Json.nesting (.object (setUpdated now (appendItem item (indexMembers none)))) = Json.nesting item + 2 := by
  show max 0 (max (max (Json.nesting item) 0 + 1) (max 0 0)) + 1 = _
  omega

/-- A push of a new index goes through when the server takes it and the item can be printed in it. -/
lemma isSome_push_fresh (h : binaryCacheFetchIndex (indexUrl base) (server (indexUrl base)) exchange = none) :
    (binaryCachePushIndexItem fmt up base item now server exchange).isSome = true ↔
      isUrl (indexUrl base) = true ∧ up.takes (indexUrl base) = true ∧ Json.nesting item + 2 ≤ Json.nestingLimit := by
  have hprint := @Json.isSome_printValue fmt (.object (setUpdated now (appendItem item (indexMembers none)))) 0
    (Nat.zero_le _)
  rw [nesting_fresh, Nat.zero_add] at hprint
  unfold binaryCachePushIndexItem
  simp only [h]
  rw [← hprint]
  change _ ↔ _ ∧ _ ∧ (Json.print fmt _).isSome = true
  cases Json.print fmt (.object (setUpdated now (appendItem item (indexMembers none)))) with
  | none => simp
  | some text =>
    rw [Option.bind_some, cachePut]
    split_ifs with hurl htakes
    · simp [hurl, htakes]
    · simp [htakes]
    · simp [hurl]

/-- **A push keeps the items** exactly when the server answers the request for the index, when it lists nothing, or
when the push fails: for want of an URL, because the server does not take the index, or because the item is nested too
deep. -/
theorem keepsItems_iff (fmt : Json.NumberFormat) (up : Uplink) (base : Bytes) (item : Json) (now : Bytes)
    (server : Server) (exchange : Exchange) : KeepsItems fmt up base item now server exchange ↔
      (∃ page, exchange = .answered page) ∨ listedIn (server (indexUrl base)) = [] ∨ isUrl (indexUrl base) = false ∨
        up.takes (indexUrl base) = false ∨ Json.nestingLimit < Json.nesting item + 2 := by
  by_cases hanswer : ∃ page, exchange = .answered page
  · refine iff_of_true (fun server' hpush => ?_) (.inl hanswer)
    obtain ⟨page, rfl⟩ := hanswer
    have hurl : isUrl (indexUrl base) = true := by
      unfold binaryCachePushIndexItem at hpush
      obtain ⟨text, -, hput⟩ := Option.bind_eq_some_iff.1 hpush
      unfold cachePut at hput
      split_ifs at hput with hurl
      exact hurl
    rw [listedIn_pushed hpush, binaryCacheFetchIndex_answered hurl]
    rfl
  · have hnone := @binaryCacheFetchIndex_failed exchange (indexUrl base) (server (indexUrl base))
      fun page heq => hanswer ⟨page, heq⟩
    have hgoes := @isSome_push_fresh fmt up base now item server exchange hnone
    constructor
    · intro h
      refine .inr ?_
      by_contra hnot
      obtain ⟨hlisted, hurl, htakes, hroom⟩ : listedIn (server (indexUrl base)) ≠ [] ∧
          ¬ isUrl (indexUrl base) = false ∧ ¬ up.takes (indexUrl base) = false ∧
            ¬ Json.nestingLimit < Json.nesting item + 2 := by
        simpa only [not_or] using hnot
      obtain ⟨server', hpush⟩ := Option.isSome_iff_exists.1
        (hgoes.2 ⟨Bool.of_not_eq_false hurl, Bool.of_not_eq_false htakes, Nat.not_lt.1 hroom⟩)
      -- only the item is listed
      have hkept := h server' hpush
      rw [listedIn_pushed hpush, hnone] at hkept
      have hlen := congrArg List.length hkept
      simp only [Option.bind_none, Option.getD_none, List.length_map, List.length_append, List.length_nil] at hlen
      exact hlisted (List.eq_nil_of_length_eq_zero (by omega))
    · intro h server' hpush
      obtain ⟨hurl, htakes, hroom⟩ := hgoes.1 (Option.isSome_iff_exists.2 ⟨server', hpush⟩)
      rw [listedIn_pushed hpush, hnone]
      rcases h with h | h | h | h | h
      · exact absurd h hanswer
      · rw [h]
        rfl
      · rw [hurl] at h
        cases h
      · rw [htakes] at h
        cases h
      · omega

/-- An index that lists a share, on a server that reports an error. -/
def busyServer : Server := fun url =>
  if url = ascii "http://c/index.json" then some (ascii "\x7b\"items\":[\"a\"]\x7d") else none

/-- How two numbers are printed. -/
def twoNumbers : Json.NumberFormat where
  text t := if t = ascii "1" then some (ascii "1") else if t = ascii "1700000000" then some (ascii "1700000000") else none
  isNumber := by
    intro t t' h
    split_ifs at h
    · obtain rfl := Option.some.inj h
      exact ⟨⟨49, [], rfl, .inr (by decide)⟩, by decide +kernel, by decide +kernel⟩
    · obtain rfl := Option.some.inj h
      exact ⟨⟨49, ascii "700000000", rfl, .inr (by decide)⟩, by decide +kernel, by decide +kernel⟩

/-- The share is not listed any more. -/
theorem busy_drops_item : ¬ KeepsItems twoNumbers ⟨fun _ => none, fun _ => true, fun _ => none⟩ (ascii "http://c")
    (.string (ascii "b")) (ascii "1700000000") busyServer (.refused ⟨503, by decide, by decide⟩ []) := by
  intro h
  have hnone := @binaryCacheFetchIndex_failed (.refused ⟨503, by decide, by decide⟩ []) (indexUrl (ascii "http://c"))
    (busyServer (indexUrl (ascii "http://c"))) (by rintro page ⟨⟩)
  have hlisted : (listedIn (busyServer (indexUrl (ascii "http://c")))).length = 1 := by decide +kernel
  obtain ⟨server', hpush⟩ := Option.isSome_iff_exists.1 ((@isSome_push_fresh twoNumbers
    ⟨fun _ => none, fun _ => true, fun _ => none⟩ (ascii "http://c") (ascii "1700000000") (.string (ascii "b"))
      busyServer _ hnone).2 ⟨by decide +kernel, rfl, by decide⟩)
  have hkept := h server' hpush
  rw [listedIn_pushed hpush, hnone] at hkept
  have hlen := congrArg List.length hkept
  simp only [Option.bind_none, Option.getD_none, List.length_map, List.length_append, List.length_nil, hlisted] at hlen
  omega

end

end Two09.Share
