import Senn.Scripts.LicenseGate
import Senn.Js.Data
import Senn.Js.JsonRoundTrip

/-! # What the license gate lets through

The ban on a family of licenses is enforced on the license that an override names, while an
override that is active keeps the package's own license from being read. -/

namespace Senn.Scripts
open Senn.Js Senn.Js.CodeUnits Senn.Lib

/-! ## The packages of a tree -/

/-- An installed package that the tree lists. -/
structure Package where
  name : JsString
  version : JsString
  path : JsString

def Package.key (d : Package) : JsString := keyOf d.name d.version

/-- The package is listed among these dependencies or below. -/
inductive InDeps : List (JsString × PnpmDepNode) → Package → Prop
  | child {deps name version path next} (h : (name, .mk (some version) (some path) next) ∈ deps) :
    InDeps deps ⟨name, version, path⟩
  | deeper {deps name version path next d} (h : (name, .mk version path next) ∈ deps)
    (hd : InDeps next d) : InDeps deps d

def InTree (workspaces : List PnpmWorkspaceNode) (d : Package) : Prop :=
  ∃ ws ∈ workspaces, InDeps ws.dependencies d

def ownPackage (name : JsString) : Option JsString → Option JsString → List Package
  | some version, some path => [⟨name, version, path⟩]
  | _, _ => []

mutual
def packagesOf (name : JsString) : PnpmDepNode → List Package
  | .mk version path next => ownPackage name version path ++ packagesIn next
def packagesIn : List (JsString × PnpmDepNode) → List Package
  | [] => []
  | (name, child) :: rest => packagesOf name child ++ packagesIn rest
end

/-- The packages of a tree, in the order of the walk. -/
def packages (workspaces : List PnpmWorkspaceNode) : List Package :=
  workspaces.flatMap fun ws => packagesIn ws.dependencies

theorem packagesOf_subset {name : JsString} {node : PnpmDepNode}
    {deps : List (JsString × PnpmDepNode)} (h : (name, node) ∈ deps) :
    ∀ d ∈ packagesOf name node, d ∈ packagesIn deps := by
  intro d hd
  induction deps with
  | nil => exact absurd h List.not_mem_nil
  | cons dep deps ih =>
    rw [packagesIn, List.mem_append]
    cases List.mem_cons.mp h with
    | inl heq => exact .inl (heq ▸ hd)
    | inr hrest => exact .inr (ih hrest)

theorem mem_packagesIn_of_inDeps {deps : List (JsString × PnpmDepNode)} {d : Package}
    (h : InDeps deps d) : d ∈ packagesIn deps := by
  induction h with
  | child h =>
    refine packagesOf_subset h _ ?_
    rw [packagesOf]
    exact List.mem_append_left _ List.mem_cons_self
  | deeper h _ ih =>
    refine packagesOf_subset h _ ?_
    rw [packagesOf]
    exact List.mem_append_right _ ih

theorem InDeps.mono {deps deps' : List (JsString × PnpmDepNode)} {d : Package} (h : InDeps deps d)
    (hsub : ∀ dep ∈ deps, dep ∈ deps') : InDeps deps' d := by
  cases h with
  | child h => exact .child (hsub _ h)
  | deeper h hd => exact .deeper (hsub _ h) hd

mutual
theorem inDeps_of_mem_packagesOf {name : JsString} {d : Package} : ∀ {node : PnpmDepNode},
    d ∈ packagesOf name node → InDeps [(name, node)] d
  | .mk version path next, h => by
    rw [packagesOf, List.mem_append] at h
    cases h with
    | inl hown =>
      cases version with
      | none => exact absurd hown List.not_mem_nil
      | some version =>
        cases path with
        | none => exact absurd hown List.not_mem_nil
        | some path => exact List.mem_singleton.mp hown ▸ .child List.mem_cons_self
    | inr hnext => exact .deeper List.mem_cons_self (inDeps_of_mem_packagesIn hnext)
theorem inDeps_of_mem_packagesIn {d : Package} : ∀ {deps : List (JsString × PnpmDepNode)},
    d ∈ packagesIn deps → InDeps deps d
  | [], h => absurd h List.not_mem_nil
  | (name, child) :: rest, h => by
    rw [packagesIn, List.mem_append] at h
    cases h with
    | inl hchild => exact (inDeps_of_mem_packagesOf hchild).mono (by simp)
    | inr hrest => exact (inDeps_of_mem_packagesIn hrest).mono fun _ => List.mem_cons_of_mem _
end

theorem mem_packages {workspaces : List PnpmWorkspaceNode} {d : Package} :
    d ∈ packages workspaces ↔ InTree workspaces d := by
  rw [packages, List.mem_flatMap]
  exact exists_congr fun ws => and_congr_right fun _ =>
    ⟨inDeps_of_mem_packagesIn, mem_packagesIn_of_inDeps⟩

/-! ## The walk -/

def record (seen : InsMap JsString JsString) (d : Package) : InsMap JsString JsString :=
  if isLocal d.version || (seen.get d.key).isSome then seen else seen.set d.key d.path

theorem note_record (name : JsString) (version path : Option JsString)
    (seen : InsMap JsString JsString) :
    note name version path seen = (ownPackage name version path).foldl record seen := by
  cases version with
  | none => rfl
  | some version => cases path <;> rfl

mutual
theorem visitDep_record (name : JsString) : ∀ (node : PnpmDepNode)
    (seen : InsMap JsString JsString),
    visitDep name node seen = (packagesOf name node).foldl record seen
  | .mk version path next, seen => by
    rw [visitDep, packagesOf, List.foldl_append, ← note_record, visitDeps_record]
theorem visitDeps_record : ∀ (deps : List (JsString × PnpmDepNode))
    (seen : InsMap JsString JsString),
    visitDeps deps seen = (packagesIn deps).foldl record seen
  | [], seen => rfl
  | (name, child) :: rest, seen => by
    rw [visitDeps, packagesIn, List.foldl_append, ← visitDep_record, visitDeps_record]
end

theorem collectProdDeps_record (workspaces : List PnpmWorkspaceNode) :
    collectProdDeps workspaces = (packages workspaces).foldl record .empty := by
  rw [collectProdDeps, packages, List.foldl_flatMap]
  simp only [visitDeps_record]

/-- The path that is listed first for a name and version, of the versions that are not local. -/
def pathFor (ds : List Package) (key : JsString) : Option JsString :=
  (ds.find? fun d => !isLocal d.version && d.key = key).map Package.path

theorem pathFor_cons (d : Package) (ds : List Package) (key : JsString) :
    pathFor (d :: ds) key =
      if !isLocal d.version && d.key = key then some d.path else pathFor ds key := by
  rw [pathFor, List.find?_cons]
  split
  · next h => rw [if_pos h]; rfl
  · next h => rw [if_neg (by simp [h])]; rfl

theorem record_get (seen : InsMap JsString JsString) (d : Package) (key : JsString) :
    (record seen d).get key = (seen.get key).or
      (if !isLocal d.version && d.key = key then some d.path else none) := by
  rw [record]
  by_cases hlocal : isLocal d.version = true
  · simp [hlocal]
  rw [eq_false_of_ne_true hlocal]
  by_cases hkey : d.key = key
  · subst hkey
    cases hget : seen.get d.key with
    | none => simp
    | some path => simp [hget]
  · have hset : (seen.set d.key d.path).get key = seen.get key :=
      InsMap.get_set_of_ne _ _ (Ne.symm hkey)
    simp only [hkey, decide_false, Bool.and_false, Bool.false_or]
    split <;> simp [hset]

theorem foldl_record_get (key : JsString) (ds : List Package) : ∀ seen : InsMap JsString JsString,
    (ds.foldl record seen).get key = (seen.get key).or (pathFor ds key) := by
  induction ds with
  | nil =>
    intro seen
    simp [pathFor]
  | cons d ds ih =>
    intro seen
    rw [List.foldl_cons, ih, record_get, pathFor_cons, Option.or_assoc]
    split <;> rfl

theorem pathFor_eq_none {workspaces : List PnpmWorkspaceNode} {key : JsString} :
    pathFor (packages workspaces) key = none ↔
      ∀ d, InTree workspaces d → d.key = key → isLocal d.version = true := by
  simp only [pathFor, Option.map_eq_none_iff, List.find?_eq_none, Bool.and_eq_true,
    Bool.not_eq_true', decide_eq_true_eq, not_and, mem_packages]
  refine forall_congr' fun d => forall_congr' fun _ => ?_
  constructor
  · intro h hkey
    by_contra hlocal
    exact h (eq_false_of_ne_true hlocal) hkey
  · intro h hlocal hkey
    exact absurd ((h hkey).symm.trans hlocal) (by decide)

theorem collectProdDeps_get (workspaces : List PnpmWorkspaceNode) (key : JsString) :
    (collectProdDeps workspaces).get key = pathFor (packages workspaces) key := by
  rw [collectProdDeps_record, foldl_record_get, InsMap.get_empty, Option.none_or]

/-! ## One package -/

section judge
variable {disk : Disk} {dir : JsString}

/-- `lic` is the license that the package in `dir` declares. -/
def Declares (disk : Disk) (dir lic : JsString) : Prop :=
  ∃ pj, readPackageJson disk dir = .ok pj ∧ extractLicenseString pj = .ok (some lic)

/-- The package is there and declares a license that the gate accepts. -/
def Passes (disk : Disk) (dir : JsString) : Prop :=
  disk.existsSync dir = true ∧ ∃ lic, Declares disk dir lic ∧ (evaluateExpression lic).ok = true

/-- The license of the package cannot be extracted, which stops the gate with an error. -/
def Stops (disk : Disk) (dir : JsString) : Prop :=
  disk.existsSync dir = true ∧
    ∃ pj message, readPackageJson disk dir = .ok pj ∧ extractLicenseString pj = .error message

theorem Passes.not_stops (h : Passes disk dir) : ¬Stops disk dir := by
  intro hstops
  obtain ⟨-, lic, ⟨pj, hread, hlic⟩, -⟩ := h
  obtain ⟨-, pj', message, hread', hstop⟩ := hstops
  obtain rfl := Except.ok.inj (hread.symm.trans hread')
  exact nomatch hlic.symm.trans hstop

theorem rejection_none {ov : Option Override} {lic? : Option JsString} :
    rejection ov lic? = none ↔ ∃ lic, lic? = some lic ∧ (evaluateExpression lic).ok = true := by
  cases lic? with
  | none => simp [rejection]
  | some lic =>
    rw [rejection.eq_def]
    dsimp only
    split
    · next hok => exact iff_of_true rfl ⟨lic, rfl, hok⟩
    · next hnot =>
      refine iff_of_false (by split <;> simp) fun h => ?_
      obtain ⟨lic', heq, hok⟩ := h
      exact hnot (Option.some.inj heq ▸ hok)

/-- What is made of a package: nothing when it passes, an error when the gate stops at it, and a
violation otherwise. -/
theorem judge_cases (disk : Disk) (ov : Option Override) (dir : JsString) :
    (judge disk ov dir = .ok none ∧ Passes disk dir) ∨
    (∃ what, judge disk ov dir = .ok (some what) ∧ ¬Passes disk dir ∧ ¬Stops disk dir) ∨
    (∃ message, judge disk ov dir = .error message ∧ Stops disk dir) := by
  cases hexists : disk.existsSync dir with
  | false =>
    refine .inr (.inl ⟨_, by rw [judge, hexists]; rfl, fun h => ?_, fun h => ?_⟩)
    · exact absurd (hexists.symm.trans h.1) (by decide)
    · exact absurd (hexists.symm.trans h.1) (by decide)
  | true =>
  cases hread : readPackageJson disk dir with
  | error message =>
    refine .inr (.inl ⟨_, by rw [judge, hexists, hread]; rfl, fun h => ?_, fun h => ?_⟩)
    · obtain ⟨-, lic, ⟨pj, hpj, -⟩, -⟩ := h
      exact nomatch hread.symm.trans hpj
    · obtain ⟨-, pj, m, hpj, -⟩ := h
      exact nomatch hread.symm.trans hpj
  | ok pj =>
  have hjudge : judge disk ov dir = (extractLicenseString pj).map (rejection ov) := by
    rw [judge, hexists, hread]
    rfl
  rw [hjudge]
  cases hlic : extractLicenseString pj with
  | error message => exact .inr (.inr ⟨message, rfl, hexists, pj, message, hread, hlic⟩)
  | ok lic? =>
  have hstops : ¬Stops disk dir := by
    intro h
    obtain ⟨-, pj', m, hread', hstop⟩ := h
    obtain rfl := Except.ok.inj (hread.symm.trans hread')
    exact nomatch hlic.symm.trans hstop
  cases hreject : rejection ov lic? with
  | none =>
    obtain ⟨lic, rfl, hok⟩ := rejection_none.mp hreject
    exact .inl ⟨congrArg Except.ok hreject, hexists, lic, ⟨pj, hread, hlic⟩, hok⟩
  | some what =>
    refine .inr (.inl ⟨what, congrArg Except.ok hreject, fun h => ?_, hstops⟩)
    obtain ⟨-, lic, ⟨pj', hread', hlic'⟩, hok⟩ := h
    obtain rfl := Except.ok.inj (hread.symm.trans hread')
    have heq : lic? = some lic := Except.ok.inj (hlic.symm.trans hlic')
    exact nomatch hreject.symm.trans (rejection_none.mpr ⟨lic, heq, hok⟩)

end judge

/-! ## The loop -/

/-- An override entry for this name and version is active. -/
def Waived (overrides : InsMap JsString Override) (today key : JsString) : Prop :=
  ∃ ov, overrides.get key = some ov ∧ isOverrideActive ov today = true

section scan
variable {disk : Disk} {overrides : InsMap JsString Override} {today : JsString}

theorem waived_iff {key : JsString} :
    (overrides.get key).any (isOverrideActive · today) = true ↔ Waived overrides today key := by
  rw [Option.any_eq_true]
  rfl

/-- One turn of the loop. -/
theorem scan_cons {key path : JsString} {deps : List (JsString × JsString)} {r : Report}
    (h : scan disk overrides today ((key, path) :: deps) = .ok r) :
    ∃ rest, scan disk overrides today deps = .ok rest ∧
      ((r.violations = rest.violations ∧ (Waived overrides today key ∨ Passes disk path)) ∨
       (∃ line, r.violations = ⟨key, line⟩ :: rest.violations ∧ ¬Waived overrides today key ∧
          ¬Passes disk path)) := by
  rw [scan] at h
  cases hrest : scan disk overrides today deps with
  | error message =>
    rw [hrest] at h
    split at h
    · exact nomatch h
    · cases hjudge : judge disk (overrides.get key) path with
      | error message => rw [hjudge] at h; exact nomatch h
      | ok what => rw [hjudge] at h; exact nomatch h
  | ok rest =>
  refine ⟨rest, rfl, ?_⟩
  rw [hrest] at h
  split at h
  · next hwaived =>
    obtain rfl := Except.ok.inj h
    exact .inl ⟨rfl, .inl (waived_iff.mp hwaived)⟩
  · next hwaived =>
    rcases judge_cases disk (overrides.get key) path with ⟨hjudge, hpasses⟩ |
      ⟨what, hjudge, hpasses, -⟩ | ⟨message, hjudge, -⟩
    · rw [hjudge] at h
      obtain rfl := Except.ok.inj h
      exact .inl ⟨rfl, .inr hpasses⟩
    · rw [hjudge] at h
      obtain rfl := Except.ok.inj h
      exact .inr ⟨_, rfl, fun hw => hwaived (waived_iff.mpr hw), hpasses⟩
    · rw [hjudge] at h
      exact nomatch h

/-- A run that ends reports of the packages that are not waived and do not pass. -/
theorem scan_reports {deps : List (JsString × JsString)} (key : JsString) : ∀ {r : Report},
    scan disk overrides today deps = .ok r → ((∃ v ∈ r.violations, v.key = key) ↔
      ∃ path, (key, path) ∈ deps ∧ ¬Waived overrides today key ∧ ¬Passes disk path) := by
  induction deps with
  | nil =>
    intro r h
    obtain rfl := Except.ok.inj h
    simp
  | cons dep deps ih =>
    intro r h
    obtain ⟨depKey, path⟩ := dep
    obtain ⟨rest, hrest, hturn⟩ := scan_cons h
    have ih := ih hrest
    have hmem : (∃ path', (key, path') ∈ (depKey, path) :: deps ∧
        ¬Waived overrides today key ∧ ¬Passes disk path') ↔
        (key = depKey ∧ ¬Waived overrides today key ∧ ¬Passes disk path) ∨
          ∃ v ∈ rest.violations, v.key = key := by
      rw [ih]
      constructor
      · intro h
        obtain ⟨path', hin, hnot⟩ := h
        cases List.mem_cons.mp hin with
        | inl heq =>
          obtain ⟨rfl, rfl⟩ := Prod.mk.inj heq
          exact .inl ⟨rfl, hnot⟩
        | inr hin => exact .inr ⟨path', hin, hnot⟩
      · intro h
        cases h with
        | inl h =>
          obtain ⟨rfl, hnot⟩ := h
          exact ⟨path, List.mem_cons_self, hnot⟩
        | inr h =>
          obtain ⟨path', hin, hnot⟩ := h
          exact ⟨path', List.mem_cons_of_mem _ hin, hnot⟩
    rw [hmem]
    cases hturn with
    | inl hquiet =>
      obtain ⟨heq, hquiet⟩ := hquiet
      rw [heq]
      refine (or_iff_right fun h => ?_).symm
      obtain ⟨rfl, hwaived, hpasses⟩ := h
      exact hquiet.elim hwaived hpasses
    | inr hloud =>
      obtain ⟨line, heq, hwaived, hpasses⟩ := hloud
      rw [heq]
      constructor
      · intro h
        obtain ⟨v, hv, rfl⟩ := h
        cases List.mem_cons.mp hv with
        | inl hnew => exact .inl (hnew ▸ ⟨rfl, hwaived, hpasses⟩)
        | inr hold => exact .inr ⟨v, hold, rfl⟩
      · intro h
        cases h with
        | inl h => exact ⟨_, List.mem_cons_self, h.1.symm⟩
        | inr h =>
          obtain ⟨v, hv, hkey⟩ := h
          exact ⟨v, List.mem_cons_of_mem _ hv, hkey⟩

/-- The run stops exactly at a package that is not waived and whose license cannot be extracted. -/
theorem scan_stops {deps : List (JsString × JsString)} :
    (∃ message, scan disk overrides today deps = .error message) ↔
      ∃ e ∈ deps, ¬Waived overrides today e.1 ∧ Stops disk e.2 := by
  induction deps with
  | nil => simp [scan]
  | cons dep deps ih =>
    obtain ⟨key, path⟩ := dep
    rw [scan, List.exists_mem_cons_iff, ← ih]
    cases hrest : scan disk overrides today deps with
    | error message =>
      refine iff_of_true ?_ (.inr ⟨message, rfl⟩)
      split
      · exact ⟨message, rfl⟩
      · cases judge disk (overrides.get key) path with
        | error message => exact ⟨message, rfl⟩
        | ok what => exact ⟨message, rfl⟩
    | ok rest =>
      rw [or_iff_left (by simp)]
      split
      · next hwaived =>
        refine iff_of_false (fun h => ?_) fun h => h.1 (waived_iff.mp hwaived)
        obtain ⟨message, h⟩ := h
        exact nomatch h
      · next hwaived =>
        rw [and_iff_right (fun h => hwaived (waived_iff.mpr h))]
        rcases judge_cases disk (overrides.get key) path with ⟨hjudge, hpasses⟩ |
          ⟨what, hjudge, -, hstops⟩ | ⟨message, hjudge, hstops⟩
        · rw [hjudge]
          refine iff_of_false (fun h => ?_) hpasses.not_stops
          obtain ⟨message, h⟩ := h
          exact nomatch h
        · rw [hjudge]
          refine iff_of_false (fun h => ?_) hstops
          obtain ⟨message, h⟩ := h
          exact nomatch h
        · rw [hjudge]
          exact iff_of_true ⟨message, rfl⟩ hstops

end scan

/-! ## Override entries -/

theorem ensure_ok {ok : Bool} {message : JsString} {u : Unit} (h : ensure ok message = .ok u) :
    ok = true := by
  cases ok with
  | true => rfl
  | false => exact nomatch h

theorem validateOverride_license {idx : Nat} {entry : Json} {o : Override}
    (h : validateOverride idx entry = .ok o) : isDisallowedSimple o.license = false := by
  cases entry with
  | obj ms =>
    obtain ⟨-, -, h⟩ := bind_ok h            -- the fields are known
    obtain ⟨name, -, h⟩ := bind_ok h
    obtain ⟨version, -, h⟩ := bind_ok h
    obtain ⟨license, -, h⟩ := bind_ok h
    obtain ⟨tierText, -, h⟩ := bind_ok h
    obtain ⟨rationale, -, h⟩ := bind_ok h
    obtain ⟨approvedBy, -, h⟩ := bind_ok h
    obtain ⟨approvedAt, -, h⟩ := bind_ok h
    obtain ⟨tier, -, h⟩ := bind_ok h
    obtain ⟨-, -, h⟩ := bind_ok h            -- the date of the approval
    obtain ⟨expiresAt, -, h⟩ := bind_ok h
    obtain ⟨-, -, h⟩ := bind_ok h            -- no expression
    obtain ⟨_, hensure, h⟩ := bind_ok h
    obtain rfl := Except.ok.inj h
    simpa using ensure_ok hensure
  | _ => exact nomatch h

theorem validateOverrides_license {entries : List Json} : ∀ {idx : Nat} {os : List Override},
    validateOverrides idx entries = .ok os → ∀ o ∈ os, isDisallowedSimple o.license = false := by
  induction entries with
  | nil =>
    intro idx os h
    obtain rfl := Except.ok.inj h
    simp
  | cons entry entries ih =>
    intro idx os h
    obtain ⟨o, ho, h⟩ := bind_ok h
    obtain ⟨os', hos, h⟩ := bind_ok h
    obtain rfl := Except.ok.inj h
    exact List.forall_mem_cons.mpr ⟨validateOverride_license ho, ih hos⟩

theorem overrideMap_mem {overrides : List Override} {key : JsString} {o : Override}
    (h : (overrideMap overrides).get key = some o) :
    o ∈ overrides ∧ keyOf o.name o.version = key := by
  have hfold : ∀ (os : List Override) (m : InsMap JsString Override),
      (os.foldl (fun m o => m.set (keyOf o.name o.version) o) m).get key = some o →
      m.get key = some o ∨ (o ∈ os ∧ keyOf o.name o.version = key) := by
    intro os
    induction os with
    | nil => exact fun m h => .inl h
    | cons o' os ih =>
      intro m h
      cases ih _ h with
      | inl hset =>
        dsimp only at hset
        by_cases hkey : keyOf o'.name o'.version = key
        · rw [hkey, InsMap.get_set_self] at hset
          obtain rfl := Option.some.inj hset
          exact .inr ⟨List.mem_cons_self, hkey⟩
        · rw [InsMap.get_set_of_ne _ _ (Ne.symm hkey)] at hset
          exact .inl hset
      | inr hmem => exact .inr ⟨List.mem_cons_of_mem _ hmem.1, hmem.2⟩
  exact (hfold overrides .empty h).resolve_left (by simp)

/-- The entry that waives a package names some other license than the banned ones: the ban is kept
on the entries, not on the packages. -/
theorem waived_license {disk : Disk} {overrides : List Override} {today key : JsString}
    (h : loadOverrides disk = .ok overrides) (hwaived : Waived (overrideMap overrides) today key) :
    ∃ o ∈ overrides, keyOf o.name o.version = key ∧ isOverrideActive o today = true ∧
      isDisallowedSimple o.license = false := by
  have hlicenses : ∀ o ∈ overrides, isDisallowedSimple o.license = false := by
    rw [loadOverrides] at h
    split at h
    · obtain rfl := Except.ok.inj h
      simp
    · split at h
      · exact nomatch h
      · exact validateOverrides_license h
      · exact nomatch h
  obtain ⟨o, hget, hactive⟩ := hwaived
  obtain ⟨hmem, hkey⟩ := overrideMap_mem hget
  exact ⟨o, hmem, hkey, hactive, hlicenses o hmem⟩

/-! ## Banned licenses -/

/-- An expression of the banned families, with no allowed alternative. -/
def Expression.Banned (x : Expression) : Prop :=
  match x.operator with
  | .or => (∃ i ∈ x.ids, isDisallowedSimple i = true) ∧ ∀ i ∈ x.ids, i ∉ ALLOWED
  | .and => ∃ i ∈ x.ids, isDisallowedSimple i = true

/-- The license `raw` is one of the banned families. -/
def IsBanned (raw : JsString) : Prop :=
  ∃ x : Expression, Lib.words isBlank (stripBalancedOuterParens raw) = x.words ∧ x.Banned

theorem disallowed_not_allowed {i : JsString} (h : isDisallowedSimple i = true) : i ∉ ALLOWED := by
  intro hmem
  have hall : ∀ i ∈ ALLOWED, isDisallowedSimple i = false := by decide
  exact absurd (h.symm.trans (hall i hmem)) (by decide)

/-- An accepted expression has a word of the allow-list, and only such when it is joined by AND. -/
theorem accepted_words {raw e : JsString} (he : stripBalancedOuterParens raw = e)
    (hok : (evaluateExpression raw).ok = true) :
    (∃ i ∈ Lib.words isBlank e, i ∈ ALLOWED) ∧
      (testWord (js "AND") e = true → ∀ i ∈ Lib.words isBlank e, i ∈ ALLOWED ∨ i = js "AND") := by
  obtain ⟨hplain, hjudged⟩ := (accepted_iff he).mp hok
  split at hjudged
  · next hor =>
    obtain ⟨p, hp, hallowed⟩ := evaluateOr_ok.mp hjudged
    refine ⟨⟨trim p, allowed_mem_words (o := .or) hp hallowed, hallowed⟩, fun hand => ?_⟩
    exact absurd ⟨hor, hand⟩ hplain.notMixed
  split at hjudged
  · obtain ⟨ids, hne, hwords, hids⟩ := allowed_clauses (evaluateAnd_ok.mp hjudged)
    obtain ⟨i, is, rfl⟩ := List.exists_cons_of_ne_nil hne
    rw [hwords]
    refine ⟨⟨i, mem_intersperse_of_mem List.mem_cons_self, hids i List.mem_cons_self⟩, ?_⟩
    exact fun _ j hj => (mem_intersperse hj).imp_left (hids j)
  · next hand =>
    have hallowed := evaluateSingle_ok.mp hjudged
    rw [words_single (allowed_solid hallowed).isWord]
    exact ⟨⟨e, List.mem_cons_self, hallowed⟩, fun h => absurd h hand⟩

/-- The gate accepts no license of the banned families. -/
theorem banned_rejected {raw : JsString} (h : IsBanned raw) :
    (evaluateExpression raw).ok = false := by
  obtain ⟨⟨operator, ids, hne, hids⟩, hwords, hbanned⟩ := h
  refine eq_false_of_ne_true fun hok => ?_
  obtain ⟨⟨i, hmem, hallowed⟩, hand⟩ := accepted_words rfl hok
  cases operator with
  | or =>
    rw [hwords] at hmem
    cases mem_intersperse hmem with
    | inl hin => exact hbanned.2 i hin hallowed
    | inr heq => exact operator_not_identifier .or (heq ▸ allowed_identifier hallowed)
  | and =>
    obtain ⟨b, hb, hdisallowed⟩ := hbanned
    by_cases hjoined : testWord (js "AND") (stripBalancedOuterParens raw) = true
    · have hbmem : b ∈ Lib.words isBlank (stripBalancedOuterParens raw) :=
        hwords ▸ mem_intersperse_of_mem hb
      cases hand hjoined b hbmem with
      | inl hin => exact disallowed_not_allowed hdisallowed hin
      | inr heq =>
        have hword : IsIdentifier (js "AND") := heq ▸ hids b hb
        exact operator_not_identifier .and hword
    · obtain ⟨j, hsingle⟩ := ids_single hwords (eq_false_of_ne_true hjoined)
      obtain rfl : ids = [j] := hsingle
      rw [hwords] at hmem
      obtain rfl : i = j := List.mem_singleton.mp hmem
      obtain rfl := List.mem_singleton.mp hb
      exact disallowed_not_allowed hdisallowed hallowed

/-! ## What the gate guards -/

section gate
variable (disk : Disk) (today : JsString) (workspaces : List PnpmWorkspaceNode)

/-- The package in `dir` declares a license of the banned families. -/
def Bans (dir : JsString) : Prop := ∃ lic, Declares disk dir lic ∧ IsBanned lic

/-- Unless the gate stops with an error, it reports a violation. -/
def Blocks (outcome : Except JsString Report) : Prop := ∀ r, outcome = .ok r → r.violations ≠ []

/-- Unless the gate stops with an error, it reports a violation of this name and version. -/
def Reports (outcome : Except JsString Report) (key : JsString) : Prop :=
  ∀ r, outcome = .ok r → ∃ v ∈ r.violations, v.key = key

/-- No override entry is of this name and version. -/
def NoOverride (overrides : List Override) (key : JsString) : Prop :=
  ∀ o ∈ overrides, keyOf o.name o.version ≠ key

/-- The package that is read for this name and version is not waived and does not pass. -/
def Caught (overrides : List Override) (key : JsString) : Prop :=
  ∃ path, pathFor (packages workspaces) key = some path ∧
    ¬Waived (overrideMap overrides) today key ∧ ¬Passes disk path

/-- The package is not judged, or another one is in its place: an override is active, its name and
version is only listed as a local one, or a package at another path that is listed first passes. -/
def Escapes (overrides : List Override) (d : Package) : Prop :=
  Waived (overrideMap overrides) today d.key ∨
    (∀ d', InTree workspaces d' → d'.key = d.key → isLocal d'.version = true) ∨
    ∃ path, pathFor (packages workspaces) d.key = some path ∧ path ≠ d.path ∧ Passes disk path

/-- The gate stops at a package that is not waived. -/
def Aborts (overrides : List Override) : Prop :=
  ∃ key path, pathFor (packages workspaces) key = some path ∧
    ¬Waived (overrideMap overrides) today key ∧ Stops disk path

/-- Some package of a banned license is enough for a violation. -/
def BansBlock : Prop :=
  (∃ d, InTree workspaces d ∧ Bans disk d.path) → Blocks (checkLicenses disk today workspaces)

/-- Every package of a banned license is reported, and every package without an override whose
license the gate does not accept. -/
def GuardsEach (overrides : List Override) : Prop :=
  ∀ d, InTree workspaces d →
    Bans disk d.path ∨ (NoOverride overrides d.key ∧ ¬Passes disk d.path) →
    Reports (checkLicenses disk today workspaces) d.key

end gate

section
variable {disk : Disk} {today : JsString} {workspaces : List PnpmWorkspaceNode}
  {overrides : List Override}

theorem collected_iff {key path : JsString} :
    (key, path) ∈ (collectProdDeps workspaces).entries ↔
      pathFor (packages workspaces) key = some path := by
  rw [← InsMap.get_eq_some_iff, collectProdDeps_get]

theorem checkLicenses_loaded (h : loadOverrides disk = .ok overrides) :
    checkLicenses disk today workspaces =
      scan disk (overrideMap overrides) today (collectProdDeps workspaces).entries := by
  rw [checkLicenses, h]
  rfl

theorem aborts_iff (h : loadOverrides disk = .ok overrides) :
    Aborts disk today workspaces overrides ↔
      ∃ message, checkLicenses disk today workspaces = .error message := by
  rw [checkLicenses_loaded h, scan_stops]
  constructor
  · intro hstops
    obtain ⟨key, path, hpath, hstops⟩ := hstops
    exact ⟨(key, path), collected_iff.mpr hpath, hstops⟩
  · intro hstops
    obtain ⟨⟨key, path⟩, hmem, hstops⟩ := hstops
    exact ⟨key, path, collected_iff.mp hmem, hstops⟩

theorem caught_iff (h : loadOverrides disk = .ok overrides) {r : Report}
    (hr : checkLicenses disk today workspaces = .ok r) (key : JsString) :
    (∃ v ∈ r.violations, v.key = key) ↔ Caught disk today workspaces overrides key := by
  rw [checkLicenses_loaded h] at hr
  rw [scan_reports key hr]
  exact exists_congr fun path => and_congr_left' collected_iff

theorem reports_iff (h : loadOverrides disk = .ok overrides) (key : JsString) :
    Reports (checkLicenses disk today workspaces) key ↔
      Aborts disk today workspaces overrides ∨ Caught disk today workspaces overrides key := by
  rw [aborts_iff h]
  cases hrun : checkLicenses disk today workspaces with
  | error message => exact iff_of_true (fun r hr => nomatch hr) (.inl ⟨message, rfl⟩)
  | ok r =>
    rw [or_iff_right (by simp), ← caught_iff h hrun]
    constructor
    · intro hall
      exact hall r rfl
    · intro hv r' hr
      exact Except.ok.inj hr ▸ hv

theorem blocks_iff (h : loadOverrides disk = .ok overrides) :
    Blocks (checkLicenses disk today workspaces) ↔
      Aborts disk today workspaces overrides ∨
        ∃ key, Caught disk today workspaces overrides key := by
  rw [aborts_iff h]
  cases hrun : checkLicenses disk today workspaces with
  | error message => exact iff_of_true (fun r hr => nomatch hr) (.inl ⟨message, rfl⟩)
  | ok r =>
    rw [or_iff_right (by simp)]
    constructor
    · intro hall
      obtain ⟨v, vs, hvs⟩ := List.exists_cons_of_ne_nil (hall r rfl)
      exact ⟨v.key, (caught_iff h hrun v.key).mp ⟨v, hvs ▸ List.mem_cons_self, rfl⟩⟩
    · intro hcaught r' hr
      obtain ⟨key, hcaught⟩ := hcaught
      obtain ⟨v, hv, -⟩ := (caught_iff h hrun key).mpr hcaught
      exact Except.ok.inj hr ▸ List.ne_nil_of_mem hv

/-- A package that does not pass is caught unless it escapes. -/
theorem caught_iff_escapes {d : Package} (hd : ¬Passes disk d.path) :
    Caught disk today workspaces overrides d.key ↔ ¬Escapes disk today workspaces overrides d := by
  constructor
  · intro hcaught hescapes
    obtain ⟨path, hpath, hwaived, hpasses⟩ := hcaught
    obtain hw | hnone | ⟨path', hpath', -, hpasses'⟩ := hescapes
    · exact hwaived hw
    · exact nomatch (pathFor_eq_none.mpr hnone).symm.trans hpath
    · obtain rfl := Option.some.inj (hpath.symm.trans hpath')
      exact hpasses hpasses'
  · intro hescapes
    obtain ⟨hwaived, hlisted⟩ := not_or.mp hescapes
    obtain ⟨hsome, hother⟩ := not_or.mp hlisted
    obtain ⟨path, hpath⟩ := Option.ne_none_iff_exists'.mp (mt pathFor_eq_none.mp hsome)
    refine ⟨path, hpath, hwaived, fun hpasses => hother ⟨path, hpath, fun heq => ?_, hpasses⟩⟩
    exact hd (heq ▸ hpasses)

theorem Bans.not_passes {dir : JsString} (h : Bans disk dir) : ¬Passes disk dir := by
  intro hpasses
  obtain ⟨lic, ⟨pj, hread, hlic⟩, hbanned⟩ := h
  obtain ⟨-, lic', ⟨pj', hread', hlic'⟩, hok⟩ := hpasses
  obtain rfl := Except.ok.inj (hread.symm.trans hread')
  obtain rfl := Option.some.inj (Except.ok.inj (hlic.symm.trans hlic'))
  exact absurd (hok.symm.trans (banned_rejected hbanned)) (by decide)

/-- When the gate bars what it is to bar: a tree with a banned package, if some package is caught,
and each package that it is to report, if that one does not escape. -/
theorem gate_guards_iff (h : loadOverrides disk = .ok overrides) :
    (BansBlock disk today workspaces ↔
      ((∃ d, InTree workspaces d ∧ Bans disk d.path) →
        Aborts disk today workspaces overrides ∨
          ∃ key, Caught disk today workspaces overrides key)) ∧
    (GuardsEach disk today workspaces overrides ↔
      ∀ d, InTree workspaces d →
        Bans disk d.path ∨ (NoOverride overrides d.key ∧ ¬Passes disk d.path) →
        Aborts disk today workspaces overrides ∨ ¬Escapes disk today workspaces overrides d) := by
  constructor
  · rw [BansBlock, blocks_iff h]
  · refine forall_congr' fun d => imp_congr_right fun _ => imp_congr_right fun hbarred => ?_
    have hpasses : ¬Passes disk d.path := hbarred.elim Bans.not_passes And.right
    rw [reports_iff h, caught_iff_escapes hpasses]

end

/-! ## A copyleft package -/

/-- The license field of a package under the GPL. -/
def copyleftJson : Json := .obj [(js "license", .str (js "GPL-3.0"))]

def copyleftTree : List PnpmWorkspaceNode :=
  [⟨[(js "x", .mk (some (js "1.0.0")) (some (js "/x")) [])]⟩]

/-- An entry for the package that claims another license. -/
def waivingJson : Json :=
  .arr [.obj [(js "name", .str (js "x")), (js "version", .str (js "1.0.0")),
    (js "license", .str (js "MPL-2.0")), (js "tier", .str (js "review-required")),
    (js "rationale", .str (js "r")), (js "approvedBy", .str (js "m")),
    (js "approvedAt", .str (js "2026-01-01"))]]

def copyleftDisk (overrides : Option JsString) : Disk where
  overrides := overrides
  existsSync _ := true
  packageJson _ := .ok copyleftJson.stringify
  syntaxError _ := []

theorem copyleft_read (overrides : Option JsString) (dir : JsString) :
    readPackageJson (copyleftDisk overrides) dir = .ok copyleftJson := by
  have hparse : Json.parse copyleftJson.stringify = some copyleftJson :=
    parse_stringify (by simp [copyleftJson, Json.Exact, ExactMembers])
  rw [readPackageJson, copyleftDisk]
  dsimp only
  rw [hparse]

theorem copyleft_bans (overrides : Option JsString) :
    Bans (copyleftDisk overrides) (js "/x") := by
  refine ⟨js "GPL-3.0", ⟨copyleftJson, copyleft_read overrides _, rfl⟩, ?_⟩
  have hunits : (js "GPL-3.0").all isIdentifierUnit = true := by decide
  have hids : ∀ i ∈ [js "GPL-3.0"], IsIdentifier i :=
    List.forall_mem_singleton.mpr ⟨by decide, List.all_eq_true.mp hunits, by decide⟩
  refine ⟨⟨.and, [js "GPL-3.0"], List.cons_ne_nil _ _, hids⟩, ?_, js "GPL-3.0", ?_, ?_⟩
  · show Lib.words isBlank (stripBalancedOuterParens (js "GPL-3.0")) = [js "GPL-3.0"]
    decide
  · exact List.mem_cons_self
  · decide

/-- The entry is accepted, and keeps the license of the package from being read. -/
theorem waived_copyleft_passes : ¬∀ (disk : Disk) (today : JsString)
    (workspaces : List PnpmWorkspaceNode) (overrides : List Override),
    loadOverrides disk = .ok overrides → BansBlock disk today workspaces := by
  intro hall
  have hparse : Json.parse waivingJson.stringify = some waivingJson :=
    parse_stringify (by simp [waivingJson, Json.Exact, ExactMembers, ExactElems]; decide)
  obtain ⟨o, hload, hrun⟩ : ∃ o, loadOverrides (copyleftDisk (some waivingJson.stringify)) =
      .ok [o] ∧ scan (copyleftDisk (some waivingJson.stringify)) (overrideMap [o])
        (js "2026-01-01") (collectProdDeps copyleftTree).entries = .ok ⟨[], 1, 1⟩ := by
    refine ⟨⟨js "x", js "1.0.0", js "MPL-2.0", .reviewRequired, js "r", js "m", js "2026-01-01",
      none⟩, ?_, by rfl⟩
    rw [loadOverrides, copyleftDisk]
    dsimp only
    rw [hparse]
    rfl
  have hcheck : checkLicenses (copyleftDisk (some waivingJson.stringify)) (js "2026-01-01")
      copyleftTree = .ok ⟨[], 1, 1⟩ := by
    rw [checkLicenses_loaded hload, hrun]
  have hbans : ∃ d, InTree copyleftTree d ∧
      Bans (copyleftDisk (some waivingJson.stringify)) d.path :=
    ⟨⟨js "x", js "1.0.0", js "/x"⟩, ⟨_, List.mem_cons_self, .child List.mem_cons_self⟩,
      copyleft_bans _⟩
  exact hall _ _ _ _ hload hbans _ hcheck rfl

/-- Without the entry the gate reports it. -/
theorem bare_copyleft_blocks : BansBlock (copyleftDisk none) (js "2026-01-01") copyleftTree := by
  have hload : loadOverrides (copyleftDisk none) = .ok [] := rfl
  refine (gate_guards_iff hload).1.mpr fun _ => .inr ⟨js "x@1.0.0", js "/x", ?_, ?_, ?_⟩
  · decide
  · intro hwaived
    obtain ⟨ov, hget, -⟩ := hwaived
    exact nomatch hget
  · exact (copyleft_bans none).not_passes

end Senn.Scripts
