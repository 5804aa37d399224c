import SlurmManager.Lib.Program
import SlurmManager.Lib.Expansion
import Mathlib.Logic.Function.Basic
import Mathlib.Data.List.Nodup

/-!
# UploadPackages — publishing one bundle in two registries

`upload-packages.sh` from its validated bundle on, against a registry that stores what is absent.  The registry is
that of the test fixture, with one addition: a request may fail, or be answered by another status, before or
after the bytes were stored.

* `Registry`, `upload`, `download`: a file of the RPM registry is kept under the version-release and the
  architecture in its name.
* `publish`: one run of the script; it ends with an exit code.
* `downloadTarget_downloadUrl`: the URL of the comparison leads to the file that the upload met.
* `uploads_resumable`: what any history of runs leaves, and how the next run ends.
-/

namespace SlurmManager

open Program

abbrev Text := List Char

abbrev Bytes := List UInt8

/-- A file of the artifact directory, by its base name. -/
structure Package where
  name : Text
  bytes : Bytes

/-! ## The registry -/

/-- What a file is stored under. -/
inductive Target
  | generic (url : Text)
  | rpm (versionRelease architecture : Text)
  deriving DecidableEq

/-- What befalls a request. -/
inductive Fate
  | served
  /-- Another status than these two, perhaps after the bytes were stored. -/
  | answered (status : {n : ℕ // n ≠ 201 ∧ n ≠ 409}) (stored : Bool)
  /-- `curl` ends with a nonzero exit code. -/
  | failed (code : {n : ℕ // n ≠ 0}) (stored : Bool)

structure Registry where
  files : Target → Option Bytes
  fate : ℕ → Fate
  /-- The number of requests so far. -/
  requests : ℕ := 0

/-- `name.replace("_", "~")`. -/
def restoreTilde (name : Text) : Text := name.map fun c => if c = '_' then '~' else c

def registryUrl : Text := "https://gitea.psi.ch/api/packages/bec/".toList

def rpmUploadUrl : Text := registryUrl ++ "rpm/upload".toList

def rpmPackageUrl : Text := registryUrl ++ "rpm/package/bec-slurm-worker/".toList

/-- The entry of the RPM registry for a file name. -/
def rpmTarget (name : Text) : Target :=
  let name := Shell.chopPrefix "bec-slurm-worker-".toList (Shell.chopSuffix ".rpm".toList name)
  .rpm (restoreTilde (Shell.beforeLast '.' name)) (Shell.afterLast '.' name)

/-- Where an upload goes. -/
def Package.target (p : Package) (uploadUrl : Text) : Target :=
  if uploadUrl = rpmUploadUrl then rpmTarget p.name else .generic uploadUrl

/-- What a download asks for. -/
def downloadTarget (url : Text) : Target :=
  if rpmPackageUrl <+: url then
    .rpm (Shell.beforeLast '/' (url.drop rpmPackageUrl.length)) (Shell.afterLast '/' (url.drop rpmPackageUrl.length))
  else .generic url

namespace Registry

/-- The next request. -/
def count (r : Registry) : Registry := { r with requests := r.requests + 1 }

/-- Store bytes that are absent. -/
def keep (t : Target) (b : Bytes) (r : Registry) : Registry :=
  if (r.files t).isNone then { r with files := Function.update r.files t (some b) } else r

end Registry

/-- `curl --upload-file`: the status of the answer. -/
def upload (p : Package) (url : Text) : Program ℕ Registry ℕ := do
  let r ← get
  let t := p.target url
  match r.fate r.requests with
  | .served =>
    set (r.count.keep t p.bytes)
    return if (r.files t).isNone then 201 else 409
  | .answered status stored =>
    set (if stored then r.count.keep t p.bytes else r.count)
    return status
  | .failed code stored =>
    set (if stored then r.count.keep t p.bytes else r.count)
    throw code.val

/-- `curl --fail-with-body`: the stored bytes, or a nonzero exit code.  An answer below 400 that does not serve the
file gives `none`: its body is a page of the registry, which is no copy of a package. -/
def download (url : Text) : Program ℕ Registry (Option Bytes) := do
  let r ← get
  set r.count
  match r.fate r.requests with
  | .served =>
    match r.files (downloadTarget url) with
    | none => throw 22
    | some b => return some b
  | .answered status _ => if 400 ≤ status.val then throw 22 else return none
  | .failed code _ => throw code.val

/-! ## The script -/

section Script

/-- `upload_package`. -/
def uploadPackage (package : Package) (uploadUrl downloadUrl : Text) : Program ℕ Registry Unit := do
  let status ← upload package uploadUrl
  if status = 201 then
    return ()
  else if status = 409 then
    let existing ← download downloadUrl
    if existing = some package.bytes then
      return ()
    else
      throw 1
  else
    throw 1

/-- What the checks of the script let through: two archives, one RPM for each architecture, and the checksums. -/
structure Bundle where
  version : Text
  archives : List Package
  rpms : List Package
  checksums : Package
  archives_two : archives.length = 2
  rpms_two : rpms.length = 2
  rpms_glob : ∀ p ∈ rpms, Shell.glob "bec-slurm-worker-".toList ".rpm".toList p.name
  x86_one : (rpms.filter fun p => Shell.glob "bec-slurm-worker-".toList ".x86_64.rpm".toList p.name).length = 1
  arm_one : (rpms.filter fun p => Shell.glob "bec-slurm-worker-".toList ".aarch64.rpm".toList p.name).length = 1
  /-- They are different files of one directory. -/
  names : ((archives ++ rpms ++ [checksums]).map Package.name).Nodup

def genericUrl (version : Text) (p : Package) : Text :=
  registryUrl ++ ("generic/bec-slurm-worker/".toList ++ (version ++ '/' :: p.name))

/-- `rpm_name`. -/
def rpmName (p : Package) : Text := Shell.chopSuffix ".rpm".toList p.name

def rpmArchitecture (p : Package) : Text := Shell.afterLast '.' (rpmName p)

def rpmVersion (p : Package) : Text :=
  restoreTilde (Shell.chopPrefix "bec-slurm-worker-".toList (Shell.beforeLast '.' (rpmName p)))

def rpmDownloadUrl (p : Package) : Text := rpmPackageUrl ++ (rpmVersion p ++ '/' :: rpmArchitecture p)

/-- The two upload loops. -/
def publish (b : Bundle) : Program ℕ Registry Unit := do
  forM (b.archives ++ b.rpms ++ [b.checksums]) fun p =>
    uploadPackage p (genericUrl b.version p) (genericUrl b.version p)
  forM b.rpms fun p => uploadPackage p rpmUploadUrl (rpmDownloadUrl p)

/-- The exit code of a run. -/
def exitCode (r : Except ℕ Unit) : ℕ :=
  match r with
  | .ok _ => 0
  | .error code => code

/-- What one run after the other leaves in the registry; each meets the fates given for it. -/
def publishAll (b : Bundle) (files : Target → Option Bytes) (runs : List (ℕ → Fate)) : Target → Option Bytes :=
  runs.foldl (fun files fate => ((publish b).exec { files := files, fate := fate }).2.files) files

end Script

/-! ## The two names of an RPM -/

section Names

variable {p : Package} {v a : Text}

/-- The name of an RPM: version-release and architecture. -/
def IsRpm (p : Package) (v a : Text) : Prop :=
  p.name = "bec-slurm-worker-".toList ++ (v ++ '.' :: (a ++ ".rpm".toList))

variable (h : IsRpm p v a) (ha : '.' ∉ a)
include h

theorem rpmName_eq : rpmName p = "bec-slurm-worker-".toList ++ v ++ '.' :: a := by
  have hname : p.name = ("bec-slurm-worker-".toList ++ v ++ '.' :: a) ++ ".rpm".toList := by
    rw [h, List.append_assoc, List.append_assoc, List.cons_append]
  rw [rpmName, hname, Shell.chopSuffix_append]

include ha

/-- The registry splits the name from the other side, with the same result. -/
theorem target_rpm : p.target rpmUploadUrl = .rpm (restoreTilde v) a := by
  have hname : Shell.chopSuffix ".rpm".toList p.name = "bec-slurm-worker-".toList ++ (v ++ '.' :: a) := by
    rw [← List.append_assoc]
    exact rpmName_eq h
  rw [Package.target, if_pos rfl, rpmTarget, hname, Shell.chopPrefix_append, Shell.beforeLast_append ha,
    Shell.afterLast_append ha]

theorem rpmArchitecture_eq : rpmArchitecture p = a := by
  rw [rpmArchitecture, rpmName_eq h, Shell.afterLast_append ha]

theorem rpmVersion_eq : rpmVersion p = restoreTilde v := by
  rw [rpmVersion, rpmName_eq h, Shell.beforeLast_append ha, Shell.chopPrefix_append]

/-- **The comparison asks for the file that the upload met.** -/
theorem downloadTarget_rpmDownloadUrl (ha' : '/' ∉ a) : downloadTarget (rpmDownloadUrl p) = p.target rpmUploadUrl := by
  rw [target_rpm h ha, rpmDownloadUrl, rpmArchitecture_eq h ha, rpmVersion_eq h ha, downloadTarget,
    if_pos (List.prefix_append _ _), List.drop_left, Shell.beforeLast_append ha', Shell.afterLast_append ha']

end Names

section Generic

variable (version : Text) (p : Package)

/-- The two registries have different URLs. -/
theorem not_rpm_genericUrl : ¬ rpmPackageUrl <+: genericUrl version p ∧ genericUrl version p ≠ rpmUploadUrl := by
  constructor
  · intro h
    have h' := (List.prefix_append_right_inj _).mp h
    simp at h'
  · intro h
    have h' := List.append_cancel_left h
    simp at h'

theorem target_generic : p.target (genericUrl version p) = .generic (genericUrl version p) :=
  if_neg (not_rpm_genericUrl version p).2

theorem downloadTarget_genericUrl : downloadTarget (genericUrl version p) = p.target (genericUrl version p) := by
  rw [target_generic, downloadTarget, if_neg (not_rpm_genericUrl version p).1]

variable {version} {q : Package}

theorem genericUrl_inj : genericUrl version p = genericUrl version q ↔ p.name = q.name := by
  constructor
  · intro h
    exact (List.cons.inj (List.append_cancel_left (List.append_cancel_left (List.append_cancel_left h)))).2
  · intro h
    rw [genericUrl, genericUrl, h]

end Generic

/-! ## One upload -/

/-- The registry has at most been given the bytes `b` for `t`, which were absent. -/
structure Stores (t : Target) (b : Bytes) (r r' : Registry) : Prop where
  fate : r'.fate = r.fate
  others : ∀ u, u ≠ t → r'.files u = r.files u
  kept : r'.files t = r.files t ∨ r.files t = none ∧ r'.files t = some b

namespace Stores

variable {t : Target} {b : Bytes} {r r' : Registry}

theorem refl : Stores t b r r := ⟨rfl, fun _ _ => rfl, .inl rfl⟩

theorem count (h : Stores t b r r') : Stores t b r r'.count := ⟨h.fate, h.others, h.kept⟩

theorem keep : Stores t b r (r.count.keep t b) := by
  unfold Registry.keep
  split_ifs with hn
  · refine ⟨rfl, fun u hu => Function.update_of_ne hu _ _, .inr ⟨Option.isNone_iff_eq_none.mp hn, ?_⟩⟩
    exact Function.update_self t (some b) r.files
  · exact refl.count

/-- Stored bytes stay. -/
theorem grows (h : Stores t b r r') {u : Target} {x : Bytes} (hu : r.files u = some x) : r'.files u = some x := by
  by_cases hut : u = t
  · subst hut
    rcases h.kept with hk | ⟨hn, -⟩
    · rwa [hk]
    · rw [hn] at hu
      contradiction
  · rwa [h.others u hut]

end Stores

theorem keep_files (r : Registry) (t : Target) (b : Bytes) :
    (r.count.keep t b).files t = some ((r.files t).getD b) := by
  unfold Registry.keep
  split_ifs with hn
  · have hn' : r.files t = none := Option.isNone_iff_eq_none.mp hn
    rw [hn']
    exact Function.update_self t (some b) r.files
  · obtain ⟨x, hx⟩ := Option.ne_none_iff_exists'.mp fun hn' : r.files t = none => hn (by
      rw [Registry.count, hn']
      rfl)
    rw [hx]
    exact hx

/-- What `curl --upload-file` does. -/
theorem upload_spec (p : Package) (url : Text) (r : Registry) : ∃ res r',
    (upload p url).exec r = (res, r') ∧ Stores (p.target url) p.bytes r r' ∧
    (∀ code, res = .error code → code ≠ 0) ∧
    (res = .ok 201 → r'.files (p.target url) = some p.bytes) ∧
    (r.fate r.requests = .served → res = .ok 201 ∧ r.files (p.target url) = none ∨
      res = .ok 409 ∧ ∃ b, r.files (p.target url) = some b ∧ r'.files (p.target url) = some b) := by
  have hstored : ∀ stored : Bool,
      Stores (p.target url) p.bytes r (if stored then r.count.keep (p.target url) p.bytes else r.count) := by
    intro stored
    split_ifs
    · exact Stores.keep
    · exact Stores.refl.count
  unfold upload
  rw [exec_bind, exec_get]
  dsimp only
  cases hf : r.fate r.requests with
  | served =>
    rw [exec_bind, exec_set]
    refine ⟨_, _, rfl, Stores.keep, nofun, fun h => ?_, fun _ => ?_⟩
    · have hn : (r.files (p.target url)).isNone = true := by
        by_contra hn
        have h' := Except.ok.inj h
        rw [if_neg hn] at h'
        contradiction
      rw [keep_files, Option.isNone_iff_eq_none.mp hn]
      rfl
    · cases hx : r.files (p.target url) with
      | none => exact .inl ⟨rfl, rfl⟩
      | some b => exact .inr ⟨rfl, b, rfl, by rw [keep_files, hx]; rfl⟩
  | answered status stored =>
    rw [exec_bind, exec_set]
    refine ⟨_, _, rfl, hstored stored, nofun, fun h => ?_, nofun⟩
    exact absurd (Except.ok.inj h) status.property.1
  | failed code stored =>
    rw [exec_bind, exec_set]
    refine ⟨_, _, rfl, hstored stored, fun c hc => ?_, nofun, nofun⟩
    obtain rfl := Except.error.inj hc
    exact code.property

/-- What `curl --fail-with-body` does. -/
theorem download_spec (url : Text) (r : Registry) : ∃ res,
    (download url).exec r = (res, r.count) ∧ (∀ code, res = .error code → code ≠ 0) ∧
    (∀ b, res = .ok (some b) → r.files (downloadTarget url) = some b) ∧
    ∀ b, r.fate r.requests = .served → r.files (downloadTarget url) = some b → res = .ok (some b) := by
  unfold download
  rw [exec_bind, exec_get]
  dsimp only
  rw [exec_bind, exec_set]
  dsimp only
  cases hf : r.fate r.requests with
  | served =>
    dsimp only
    cases hb : r.files (downloadTarget url) with
    | none => exact ⟨_, rfl, fun c hc => by obtain rfl := Except.error.inj hc; decide, nofun, nofun⟩
    | some b =>
      refine ⟨_, rfl, nofun, fun c hc => ?_, fun c _ hc => by rw [Option.some.inj hc]⟩
      rw [Option.some.inj (Except.ok.inj hc)]
  | answered status stored =>
    dsimp only
    split_ifs
    · exact ⟨_, rfl, fun c hc => by obtain rfl := Except.error.inj hc; decide, nofun, nofun⟩
    · exact ⟨_, rfl, nofun, fun b hb => by simp at hb, nofun⟩
  | failed code stored =>
    refine ⟨_, rfl, fun c hc => ?_, nofun, nofun⟩
    obtain rfl := Except.error.inj hc
    exact code.property

/-! ## A run -/

/-- One call of `upload_package`. -/
structure Upload where
  package : Package
  uploadUrl : Text
  downloadUrl : Text

namespace Upload

def run (u : Upload) : Program ℕ Registry Unit := uploadPackage u.package u.uploadUrl u.downloadUrl

def target (u : Upload) : Target := u.package.target u.uploadUrl

/-- The download is of what the upload met. -/
def Comparable (u : Upload) : Prop := downloadTarget u.downloadUrl = u.target

/-- The registry holds nothing else under the target. -/
def Agrees (u : Upload) (r : Registry) : Prop := ∀ b, r.files u.target = some b → b = u.package.bytes

theorem run_spec {u : Upload} (hu : u.Comparable) (r : Registry) : ∃ res r',
    u.run.exec r = (res, r') ∧ Stores u.target u.package.bytes r r' ∧
    (∀ code, res = .error code → code ≠ 0) ∧
    (res = .ok () → r'.files u.target = some u.package.bytes) ∧
    ((∀ n, r.fate n = .served) → u.Agrees r → res = .ok ()) := by
  obtain ⟨res, r₁, hexec, hs, hcode, hcreated, hserved⟩ := upload_spec u.package u.uploadUrl r
  unfold run uploadPackage
  cases res with
  | error code =>
    rw [exec_bind_error hexec]
    refine ⟨_, _, rfl, hs, fun c hc => ?_, nofun, fun hall _ => ?_⟩
    · obtain rfl := Except.error.inj hc
      exact hcode _ rfl
    · rcases hserved (hall _) with ⟨h, -⟩ | ⟨h, -⟩ <;> contradiction
  | ok status =>
    rw [exec_bind_ok hexec]
    split_ifs with h201 h409
    · subst h201
      exact ⟨_, _, rfl, hs, nofun, fun _ => hcreated rfl, fun _ _ => rfl⟩
    · subst h409
      obtain ⟨res, hdown, hcode', hbytes, hfound⟩ := download_spec u.downloadUrl r₁
      have hconflict : (∀ n, r.fate n = .served) → ∃ b, r.files u.target = some b ∧ res = .ok (some b) := by
        intro hall
        rcases hserved (hall _) with ⟨h, -⟩ | ⟨-, b, hb, hb'⟩
        · have h' := Except.ok.inj h
          contradiction
        · exact ⟨b, hb, hfound b (by rw [hs.fate]; exact hall _) (by rw [hu]; exact hb')⟩
      cases res with
      | error code =>
        rw [exec_bind_error hdown]
        refine ⟨_, _, rfl, hs.count, fun c hc => ?_, nofun, fun hall _ => ?_⟩
        · obtain rfl := Except.error.inj hc
          exact hcode' _ rfl
        · obtain ⟨b, -, hb⟩ := hconflict hall
          contradiction
      | ok existing =>
        rw [exec_bind_ok hdown]
        split_ifs with heq
        · subst heq
          have hex : r₁.files u.target = some u.package.bytes := by rw [← hu]; exact hbytes _ rfl
          exact ⟨_, _, rfl, hs.count, nofun, fun _ => hex, fun _ _ => rfl⟩
        · refine ⟨_, _, rfl, hs.count, fun c hc => by obtain rfl := Except.error.inj hc; decide, nofun,
            fun hall hagree => ?_⟩
          obtain ⟨b, hb, hb'⟩ := hconflict hall
          exact absurd ((Except.ok.inj hb').trans (congrArg some (hagree b hb))) heq
    · refine ⟨_, _, rfl, hs, fun c hc => by obtain rfl := Except.error.inj hc; decide, nofun, fun hall _ => ?_⟩
      rcases hserved (hall _) with ⟨h, -⟩ | ⟨h, -⟩
      · exact absurd (Except.ok.inj h) h201
      · exact absurd (Except.ok.inj h) h409

/-- A list of uploads, one after the other. -/
theorem runs_spec {l : List Upload} (hl : ∀ u ∈ l, u.Comparable) (r : Registry) : ∃ res r',
    (forM l run).exec r = (res, r') ∧ (∀ t b, r.files t = some b → r'.files t = some b) ∧
    (∀ code, res = .error code → code ≠ 0) ∧
    (res = .ok () → ∀ u ∈ l, r'.files u.target = some u.package.bytes) ∧
    ((∀ n, r.fate n = .served) → (l.map target).Nodup → (∀ u ∈ l, u.Agrees r) → res = .ok ()) := by
  induction l generalizing r with
  | nil => exact ⟨_, _, rfl, fun _ _ h => h, nofun, fun _ _ hu => absurd hu List.not_mem_nil, fun _ _ _ => rfl⟩
  | cons u l ih =>
    obtain ⟨res, r₁, hexec, hs, hcode, hstored, hgood⟩ := run_spec (hl u (by simp)) r
    rw [List.forM_cons]
    cases res with
    | error code =>
      rw [exec_bind_error hexec]
      refine ⟨_, _, rfl, fun _ _ h => hs.grows h, fun c hc => ?_, nofun, fun hall _ hagree => ?_⟩
      · obtain rfl := Except.error.inj hc
        exact hcode _ rfl
      · have hok := hgood hall (hagree u (by simp))
        contradiction
    | ok _ =>
      rw [exec_bind_ok hexec]
      obtain ⟨res, r', hrest, hgrows, hcode', hall', hgood'⟩ := ih (fun v hv => hl v (by simp [hv])) r₁
      refine ⟨res, r', hrest, fun t b h => hgrows t b (hs.grows h), hcode', fun hok v hv => ?_,
        fun hserved hnodup hagree => ?_⟩
      · rcases List.mem_cons.mp hv with rfl | hv
        · exact hgrows _ _ (hstored rfl)
        · exact hall' hok v hv
      · rw [List.map_cons, List.nodup_cons] at hnodup
        refine hgood' (fun n => by rw [hs.fate]; exact hserved n) hnodup.2 fun v hv => ?_
        have hne : v.target ≠ u.target := fun h => hnodup.1 (h ▸ List.mem_map_of_mem hv)
        intro b hb
        rw [hs.others _ hne] at hb
        exact hagree v (by simp [hv]) b hb

end Upload

namespace Bundle

variable (b : Bundle)

/-- The calls of the two loops. -/
def uploads : List Upload :=
  (b.archives ++ b.rpms ++ [b.checksums]).map (fun p => ⟨p, genericUrl b.version p, genericUrl b.version p⟩) ++
    b.rpms.map fun p => ⟨p, rpmUploadUrl, rpmDownloadUrl p⟩

theorem publish_eq : publish b = forM b.uploads Upload.run := by
  rw [uploads, List.forM_append, List.forM_map, List.forM_map]
  rfl

theorem uploads_length : b.uploads.length = 7 := by
  simp [uploads, b.archives_two, b.rpms_two]

/-- The name ends as that of an RPM for the architecture. -/
def HasArchitecture (p : Package) (a : String) : Bool :=
  Shell.glob "bec-slurm-worker-".toList ("." ++ a ++ ".rpm").toList p.name

theorem isRpm_of_hasArchitecture {p : Package} {a : String} (h : HasArchitecture p a) : ∃ v, IsRpm p v a.toList := by
  obtain ⟨v, hv⟩ := Shell.glob_iff.mp h
  refine ⟨v, hv.trans ?_⟩
  simp [String.toList_append]

/-- No name ends in both ways. -/
theorem not_both {p : Package} (hx : HasArchitecture p "x86_64") : HasArchitecture p "aarch64" = false := by
  by_contra ha
  obtain ⟨v, hv⟩ := isRpm_of_hasArchitecture hx
  obtain ⟨w, hw⟩ := isRpm_of_hasArchitecture ((Bool.not_eq_false _).mp ha)
  have h := congrArg List.reverse (List.append_cancel_left (hv.symm.trans hw))
  simp at h

/-- The two RPMs are for different architectures. -/
theorem architectures : ∃ p q, b.rpms = [p, q] ∧
    (HasArchitecture p "x86_64" ∧ HasArchitecture q "aarch64" ∨ HasArchitecture p "aarch64" ∧ HasArchitecture q "x86_64") := by
  obtain ⟨p, q, hpq⟩ := List.length_eq_two.mp b.rpms_two
  have hx : ([p, q].filter (HasArchitecture · "x86_64")).length = 1 := hpq ▸ b.x86_one
  have ha : ([p, q].filter (HasArchitecture · "aarch64")).length = 1 := hpq ▸ b.arm_one
  refine ⟨p, q, hpq, ?_⟩
  cases hp : HasArchitecture p "x86_64" with
  | true =>
    have hp' := not_both hp
    cases hq : HasArchitecture q "aarch64" with
    | true => exact .inl ⟨rfl, rfl⟩
    | false => simp [hp', hq] at ha
  | false =>
    cases hq : HasArchitecture q "x86_64" with
    | true =>
      have hq' := not_both hq
      cases hp' : HasArchitecture p "aarch64" with
      | true => exact .inr ⟨rfl, rfl⟩
      | false => simp [hp', hq'] at ha
    | false => simp [hp, hq] at hx

theorem target_of_hasArchitecture {p : Package} {a : String} (h : HasArchitecture p a) (ha : '.' ∉ a.toList) :
    ∃ v, p.target rpmUploadUrl = .rpm v a.toList := by
  obtain ⟨v, hv⟩ := isRpm_of_hasArchitecture h
  exact ⟨_, target_rpm hv ha⟩

theorem comparable : ∀ u ∈ b.uploads, u.Comparable := by
  have hrpm : ∀ p ∈ b.rpms, downloadTarget (rpmDownloadUrl p) = p.target rpmUploadUrl := by
    have hone : ∀ p (a : String), HasArchitecture p a → '.' ∉ a.toList → '/' ∉ a.toList →
        downloadTarget (rpmDownloadUrl p) = p.target rpmUploadUrl := by
      intro p a hp hdot hslash
      obtain ⟨v, hv⟩ := isRpm_of_hasArchitecture hp
      exact downloadTarget_rpmDownloadUrl hv hdot hslash
    obtain ⟨p, q, hpq, h⟩ := b.architectures
    have hx := fun p hp => hone p "x86_64" hp (by simp) (by simp)
    have ha := fun p hp => hone p "aarch64" hp (by simp) (by simp)
    intro r hr
    rw [hpq, List.mem_cons, List.mem_singleton] at hr
    rcases h with ⟨hp, hq⟩ | ⟨hp, hq⟩ <;> rcases hr with rfl | rfl
    · exact hx _ hp
    · exact ha _ hq
    · exact ha _ hp
    · exact hx _ hq
  intro u hu
  rw [uploads, List.mem_append, List.mem_map, List.mem_map] at hu
  rcases hu with ⟨p, -, rfl⟩ | ⟨p, hp, rfl⟩
  · exact downloadTarget_genericUrl b.version p
  · exact hrpm p hp

theorem targets_nodup : (b.uploads.map Upload.target).Nodup := by
  rw [uploads, List.map_append, List.map_map, List.map_map]
  refine List.Nodup.append ?_ ?_ ?_
  · refine List.Nodup.map_on ?_ (List.Nodup.of_map _ b.names)
    intro p hp q hq h
    have h' : p.name = q.name := by
      simp only [Function.comp_apply, Upload.target, target_generic, Target.generic.injEq] at h
      exact (genericUrl_inj p).mp h
    exact List.inj_on_of_nodup_map b.names hp hq h'
  · obtain ⟨p, q, hpq, h⟩ := b.architectures
    rw [hpq, List.map_cons, List.map_singleton, List.nodup_cons, List.mem_singleton]
    refine ⟨fun he => ?_, List.nodup_singleton _⟩
    have hx := fun p hp => target_of_hasArchitecture (p := p) (a := "x86_64") hp (by simp)
    have ha := fun p hp => target_of_hasArchitecture (p := p) (a := "aarch64") hp (by simp)
    have he' : p.target rpmUploadUrl = q.target rpmUploadUrl := he
    rcases h with ⟨hp, hq⟩ | ⟨hp, hq⟩
    · obtain ⟨v, hv⟩ := hx p hp
      obtain ⟨w, hw⟩ := ha q hq
      simp [hv, hw] at he'
    · obtain ⟨v, hv⟩ := ha p hp
      obtain ⟨w, hw⟩ := hx q hq
      simp [hv, hw] at he'
  · intro t ht ht'
    obtain ⟨p, -, rfl⟩ := List.mem_map.mp ht
    obtain ⟨q, -, hq⟩ := List.mem_map.mp ht'
    have hg : Upload.target ⟨p, genericUrl b.version p, genericUrl b.version p⟩ = .generic (genericUrl b.version p) :=
      target_generic b.version p
    simp only [Function.comp_apply, hg] at hq
    rw [Upload.target, Package.target, if_pos rfl, rpmTarget] at hq
    contradiction

end Bundle

/-- **Publishing is resumable.**  Whatever a history of runs has met, the seven targets are different, and what was
stored before is stored still.  The next run keeps it too; if it ends with 0, all its targets hold the local
bytes; it does not end with 0 if a target holds others; and it does if no target holds others and every
request is served. -/
theorem publish_resumable (b : Bundle) (files : Target → Option Bytes) (runs : List (ℕ → Fate)) :
    (b.uploads.map Upload.target).Nodup ∧ b.uploads.length = 7 ∧
    (∀ t x, files t = some x → publishAll b files runs t = some x) ∧
    ∀ fate, ∃ res r', (publish b).exec { files := publishAll b files runs, fate := fate } = (res, r') ∧
      (∀ t x, publishAll b files runs t = some x → r'.files t = some x) ∧
      (exitCode res = 0 → ∀ u ∈ b.uploads, r'.files u.target = some u.package.bytes) ∧
      (∀ u ∈ b.uploads, ∀ x, publishAll b files runs u.target = some x → x ≠ u.package.bytes → exitCode res ≠ 0) ∧
      ((∀ n, fate n = .served) →
        (∀ u ∈ b.uploads, ∀ x, publishAll b files runs u.target = some x → x = u.package.bytes) → exitCode res = 0) := by
  refine ⟨b.targets_nodup, b.uploads_length, ?_, fun fate => ?_⟩
  · induction runs generalizing files with
    | nil => exact fun _ _ h => h
    | cons fate runs ih =>
      intro t x h
      obtain ⟨res, r', he, hgrows, -⟩ := Upload.runs_spec b.comparable { files := files, fate := fate }
      refine ih _ t x ?_
      show ((publish b).exec { files := files, fate := fate }).2.files t = some x
      rw [b.publish_eq, he]
      exact hgrows t x h
  · obtain ⟨res, r', he, hgrows, hcode, hstored, hgood⟩ :=
      Upload.runs_spec b.comparable { files := publishAll b files runs, fate := fate }
    have hok : exitCode res = 0 → res = .ok () := by
      intro h
      cases res with
      | ok _ => rfl
      | error code => exact absurd h (hcode code rfl)
    refine ⟨res, r', b.publish_eq ▸ he, hgrows, fun h => hstored (hok h), fun u hu x hx hne h => ?_, fun hall hagree => ?_⟩
    · have h1 := hgrows _ _ hx
      rw [hstored (hok h) u hu] at h1
      exact hne (Option.some.inj h1).symm
    · rw [hgood hall b.targets_nodup hagree]
      rfl

/-- A prerelease, with one byte a file. -/
def Bundle.prerelease : Bundle where
  version := "0.2.0-rc.1".toList
  archives := [⟨"bec-slurm-worker_0.2.0-rc.1_linux_amd64.tar.gz".toList, [0]⟩,
    ⟨"bec-slurm-worker_0.2.0-rc.1_linux_arm64.tar.gz".toList, [1]⟩]
  rpms := [⟨"bec-slurm-worker-0.2.0_rc.1-1.aarch64.rpm".toList, [2]⟩,
    ⟨"bec-slurm-worker-0.2.0_rc.1-1.x86_64.rpm".toList, [3]⟩]
  checksums := ⟨"checksums.txt".toList, [4]⟩
  archives_two := rfl
  rpms_two := rfl
  rpms_glob := by decide +kernel
  x86_one := by decide +kernel
  arm_one := by decide +kernel
  names := by decide +kernel

/-- A run that fails at its sixth request, after the bytes were stored, and the run that resumes it. -/
example :
    let first := (publish .prerelease).exec
      { files := fun _ => none, fate := fun n => if n = 5 then .failed ⟨28, by decide⟩ true else .served }
    let second := (publish .prerelease).exec { files := first.2.files, fate := fun _ => .served }
    exitCode first.1 = 28 ∧ exitCode second.1 = 0 ∧
      second.2.files (.rpm "0.2.0~rc.1-1".toList "x86_64".toList) = some [3] := by
  decide +kernel

end SlurmManager
