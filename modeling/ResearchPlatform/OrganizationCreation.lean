import ResearchPlatform.LastAdmin
import ResearchPlatform.Library.Runs

/-!
# Creating an organization

`create_organization` on the committed tables, with a slug made from the name. The name
may have 255 characters and its slug 100, and only an IntegrityError is translated.
-/

namespace OrganizationCreation

open Uuid Schema TenantService LastAdmin Runs Segments

/-! ## Slugs -/

/-- The stretches of slug characters in the lowered name. -/
def slugWords (lower : String → String) (value : String) : List (List Char) :=
  words isSlugChar (lower value).toList

/-- `[a-z0-9]+(-[a-z0-9]+)*`. -/
def SlugForm (slug : String) : Prop :=
  ∃ first rest, slug.toList = first ++ rest.flatMap ('-' :: ·) ∧
    ∀ w ∈ first :: rest, w ≠ [] ∧ ∀ c ∈ w, isSlugChar c = true

theorem hyphen_other : isSlugChar '-' = false := by decide

/-- A slug is some words joined by hyphens. -/
theorem slugForm_iff {slug : String} : SlugForm slug ↔
    ∃ ws, ws ≠ [] ∧ (∀ w ∈ ws, IsWord isSlugChar w) ∧ slug.toList = join ['-'] ws := by
  constructor
  · rintro ⟨first, rest, whole, words⟩
    refine ⟨first :: rest, List.cons_ne_nil first rest, fun w hw => ?_, ?_⟩
    · exact ⟨(words w hw).1, (words w hw).2⟩
    · rw [join_cons_eq]
      exact whole
  · rintro ⟨ws, some_, words, whole⟩
    obtain ⟨first, rest, rfl⟩ := List.exists_cons_of_ne_nil some_
    refine ⟨first, rest, ?_, fun w hw => ⟨(words w hw).some, (words w hw).chars⟩⟩
    rw [whole, join_cons_eq]
    rfl

theorem hyphenateRuns_eq (s : List Char) : hyphenateRuns s = collapse isSlugChar '-' s := by
  induction s with
  | nil => rfl
  | cons c cs ih =>
    rw [hyphenateRuns, collapse, ih]
    split
    · rfl
    · cases collapse isSlugChar '-' cs with
      | nil => rfl
      | cons x rest =>
        by_cases hyphen : x = '-'
        · rw [hyphen]
          rfl
        · simp [hyphen]

section Slugs
variable {lower : String → String} {name : String}

theorem slugify_eq (lower : String → String) (name : String) : slugify lower name =
    if slugWords lower name = [] then "organization"
    else String.ofList (join ['-'] (slugWords lower name)) := by
  have trimmed := trim_collapse hyphen_other (lower name).toList
  rw [List.rdropWhile, ← hyphenateRuns_eq] at trimmed
  simp only [slugify, trimmed, slugWords]
  exact if_congr (join_eq_nil_iff fun _ => isWord_of_mem_words) rfl rfl

/-- The slug of any name has the form. -/
theorem slugForm_slugify (lower : String → String) (name : String) : SlugForm (slugify lower name) := by
  rw [slugify_eq]
  split
  · have word : IsWord isSlugChar "organization".toList :=
      ⟨by decide, List.all_eq_true.mp (by decide)⟩
    refine slugForm_iff.mpr ⟨["organization".toList], List.cons_ne_nil _ _, ?_, rfl⟩
    rw [List.forall_mem_singleton]
    exact word
  · rename_i some_
    have isWord {w : List Char} (h : w ∈ slugWords lower name) : IsWord isSlugChar w := isWord_of_mem_words h
    exact slugForm_iff.mpr ⟨slugWords lower name, some_, fun _ => isWord, String.toList_ofList⟩

/-- The characters of the words and the hyphens between them. -/
theorem length_slugify_le_iff : (slugify lower name).length ≤ 100 ↔
    (slugWords lower name).flatten.length + (slugWords lower name).length ≤ 101 := by
  rw [slugify_eq]
  split
  · rename_i none_
    rw [none_]
    exact iff_of_true (by decide) (by decide)
  · rename_i some_
    have size := length_join '-' some_
    rw [String.length_ofList]
    omega

theorem SlugForm.chars {slug : String} (form : SlugForm slug) : ∀ c ∈ slug.toList, c = '-' ∨ isSlugChar c = true := by
  obtain ⟨first, rest, whole, words⟩ := form
  intro c mem
  rw [whole] at mem
  rcases List.mem_append.mp mem with inFirst | inRest
  · exact Or.inr ((words first List.mem_cons_self).2 c inFirst)
  · obtain ⟨w, hw, inside⟩ := List.mem_flatMap.mp inRest
    rcases List.mem_cons.mp inside with rfl | inWord
    · exact Or.inl rfl
    · exact Or.inr ((words w (List.mem_cons_of_mem _ hw)).2 c inWord)

/-- A slug fits its column if it is short enough. -/
theorem fitsVarchar_slugify : fitsVarchar 100 (slugify lower name) = true ↔
    (slugWords lower name).flatten.length + (slugWords lower name).length ≤ 101 := by
  have sent : sendable (slugify lower name) = true := by
    have clear : '\x00' ∉ (slugify lower name).toList := by
      intro mem
      rcases (slugForm_slugify lower name).chars _ mem with hyphen | char
      · cases hyphen
      · exact absurd char (by decide)
    simpa [sendable] using clear
  rw [fitsVarchar, sent, Bool.true_and, ← length_slugify_le_iff, ← String.length_toList]
  constructor
  · intro blank
    -- no character of a slug is blank
    by_contra long
    obtain ⟨c, hc⟩ := List.exists_mem_of_ne_nil _ (mt List.drop_eq_nil_iff.mp long)
    obtain rfl : c = ' ' := of_decide_eq_true (List.all_eq_true.mp blank c hc)
    rcases (slugForm_slugify lower name).chars _ (List.mem_of_mem_drop hc) with hyphen | char
    · cases hyphen
    · exact absurd char (by decide)
  · intro short
    rw [List.drop_of_length_le short]
    rfl

end Slugs

/-! ## The request -/

/-- What the schema of the request admits. -/
structure OrganizationCreateRequest where
  name : String
  slug : Option String
  nameLength : 1 ≤ name.length ∧ name.length ≤ 255
  slugLength : ∀ s ∈ slug, 3 ≤ s.length ∧ s.length ≤ 100

/-- The INSERT of an organization. -/
def insertOrganization (o : Organization) (db : Database) : Except Failure Database :=
  if !(fitsVarchar 255 o.name && fitsVarchar 100 o.slug) then .error (.dataError "organizations")
  else if db.organizations.any fun x => x.id = o.id then .error (.integrityError "pk_organizations")
  else if db.organizations.any fun x => x.slug = o.row.slug then
    .error (.integrityError "uq_organizations_slug")
  else .ok { db with organizations := db.organizations ++ [o.row] }

/-- The INSERT of a membership, whose role is one of the three. -/
def insertMembership (m : OrgMembership) (db : Database) : Except Failure Database :=
  if db.orgMemberships.any fun x => x.id = m.id then .error (.integrityError "pk_org_memberships")
  else if db.orgMemberships.any fun x => x.orgId = m.orgId && x.userId = m.userId then
    .error (.integrityError "uq_org_memberships_org_user")
  else if !db.organizations.any fun x => x.id = m.orgId then
    .error (.integrityError "fk_org_memberships_org_id_organizations")
  else if !db.users.any fun u => u.id = m.userId then
    .error (.integrityError "fk_org_memberships_user_id_users")
  else .ok { db with orgMemberships := db.orgMemberships ++ [m] }

/-- `except IntegrityError`. -/
def translated {α : Type} : Except Failure α → Except Failure α
  | .error (.integrityError _) => .error (.app (.conflictError "Organization slug already exists."))
  | outcome => outcome

/-- `create_organization`. -/
def createOrganization (lower : String → String) (name : String) (slug : Option String) (ownerId : UUID)
    (draw : Draw) (db : Database) : Except Failure (Organization × Database) :=
  let organization := newOrganization lower name slug draw.orgId draw.now
  translated do
    let flushed ← insertOrganization organization db
    let stored ← insertMembership
      (ownerMembership draw.membershipId organization.id ownerId draw.now) flushed
    return (organization, stored)

/-- Ids are drawn anew, and memberships belong to stored organizations. -/
structure Ready (draw : Draw) (db : Database) : Prop where
  orgId : ∀ o ∈ db.organizations, o.id ≠ draw.orgId
  membershipId : ∀ m ∈ db.orgMemberships, m.id ≠ draw.membershipId
  orgs : ∀ m ∈ db.orgMemberships, ∃ o ∈ db.organizations, o.id = m.orgId

section Outcome
variable {lower : String → String} {name : String} {slug : Option String} {ownerId : UUID} {draw : Draw}
  {db : Database}

/-- A membership of a new organization can only miss its user. -/
theorem insertMembership_new (ready : Ready draw db) {o : Organization} {m : OrgMembership}
    (orgId : o.id = draw.orgId) (id : m.id = draw.membershipId) (own : m.orgId = draw.orgId) :
    insertMembership m { db with organizations := db.organizations ++ [o] } =
      if !db.users.any fun u => u.id = m.userId then
        .error (.integrityError "fk_org_memberships_user_id_users")
      else .ok { db with
        organizations := db.organizations ++ [o], orgMemberships := db.orgMemberships ++ [m] } := by
  have newId : (db.orgMemberships.any fun x => x.id = m.id) = false := by
    simpa [id] using ready.membershipId
  have newOrg : (db.orgMemberships.any fun x => x.orgId = m.orgId && x.userId = m.userId) = false := by
    rw [List.any_eq_false]
    intro x mem
    obtain ⟨other, stored, same⟩ := ready.orgs x mem
    have apart := ready.orgId other stored
    rw [same] at apart
    simp [own, apart]
  have inserted : ((db.organizations ++ [o]).any fun x => x.id = m.orgId) = true := by
    simp [orgId, own]
  rw [insertMembership, newId, newOrg, inserted]
  rfl

/-- The outcomes of the function: what is not short enough is refused, and a slug that is taken
or an owner that is gone is a conflict. -/
theorem createOrganization_eq (ready : Ready draw db) {o : Organization}
    (made : newOrganization lower name slug draw.orgId draw.now = o) :
    createOrganization lower name slug ownerId draw db =
      if !(fitsVarchar 255 o.name && fitsVarchar 100 o.slug) then .error (.dataError "organizations")
      else if db.organizations.any (fun x => x.slug = o.row.slug) || !db.users.any (fun u => u.id = ownerId) then
        .error (.app (.conflictError "Organization slug already exists."))
      else .ok (o, { db with
        organizations := db.organizations ++ [o.row]
        orgMemberships := db.orgMemberships ++ [ownerMembership draw.membershipId o.id ownerId draw.now] }) := by
  have id : o.id = draw.orgId := by rw [← made]; rfl
  have newId : (db.organizations.any fun x => x.id = o.id) = false := by
    simpa [id] using ready.orgId
  have member : insertMembership (ownerMembership draw.membershipId o.id ownerId draw.now)
      { db with organizations := db.organizations ++ [o.row] } =
        if !db.users.any fun u => u.id = ownerId then
          .error (.integrityError "fk_org_memberships_user_id_users")
        else .ok { db with
          organizations := db.organizations ++ [o.row]
          orgMemberships := db.orgMemberships ++
            [ownerMembership draw.membershipId o.id ownerId draw.now] } :=
    insertMembership_new (o := o.row) ready id rfl id
  simp only [createOrganization, made]
  rw [insertOrganization, newId]
  cases fits : fitsVarchar 255 o.name && fitsVarchar 100 o.slug with
  | false => rfl
  | true =>
    cases taken : db.organizations.any fun x => x.slug = o.row.slug with
    | true => rfl
    | false =>
      -- the flush of the organization succeeds, and the membership follows
      change translated ((insertMembership (ownerMembership draw.membershipId o.id ownerId draw.now)
        { db with organizations := db.organizations ++ [o.row] }).bind fun stored => .ok (o, stored)) = _
      rw [member]
      cases db.users.any fun u => u.id = ownerId with
      | false => rfl
      | true => rfl

/-- Among other requests the phase of the request is decided in the same way. -/
theorem organizationPhase_eq {n : Nat} {s : World n} (ready : Ready draw s.db) :
    organizationPhase lower s name slug ownerId draw =
      match createOrganization lower name slug ownerId draw s.db with
      | .ok (o, _) => .writing (.creation o.row (ownerMembership draw.membershipId o.id ownerId draw.now))
      | .error e => .failed e := by
  rw [createOrganization_eq ready rfl]
  simp only [organizationPhase]
  split
  · rfl
  · split
    · rfl
    · rfl

/-- The organization is stored with a slug that fits and the owner as an admin, or its slug is taken. -/
inductive Settled (lower : String → String) (name : String) (ownerId : UUID) (db : Database) :
    Except Failure (Organization × Database) → Prop
  | stored {o : Organization} {after : Database} (mem : o ∈ after.organizations) (named : o.name = name)
      (form : SlugForm o.slug) (short : o.slug.length ≤ 100)
      (admin : ∃ m ∈ after.orgMemberships, m.orgId = o.id ∧ m.userId = ownerId ∧ m.role = .admin) :
      Settled lower name ownerId db (.ok (o, after))
  | taken (other : ∃ o ∈ db.organizations, o.slug = slugify lower name) :
      Settled lower name ownerId db (.error (.app (.conflictError "Organization slug already exists.")))

/-- A new organization without a slug of its own takes one from its name. -/
theorem newOrganization_eq (lower : String → String) (name : String) (draw : Draw) : ∃ o,
    newOrganization lower name none draw.orgId draw.now = o ∧ o.name = name ∧ o.slug = slugify lower name :=
  ⟨_, rfl, rfl, rfl⟩

theorem settled_of_fits (ready : Ready draw db) (owner : ∃ u ∈ db.users, u.id = ownerId)
    (sent : sendable name = true) (short : name.length ≤ 255)
    (slugFits : fitsVarchar 100 (slugify lower name) = true) :
    Settled lower name ownerId db (createOrganization lower name none ownerId draw db) := by
  obtain ⟨o, made, named, slugged⟩ := newOrganization_eq lower name draw
  have there : (db.users.any fun u => u.id = ownerId) = true := by
    obtain ⟨u, mem, same⟩ := owner
    exact List.any_eq_true.mpr ⟨u, mem, decide_eq_true same⟩
  have slugShort : o.slug.length ≤ 100 := by
    rw [slugged]
    exact length_slugify_le_iff.mpr (fitsVarchar_slugify.mp slugFits)
  rw [createOrganization_eq ready made, Organization.row_of_short (named ▸ short) slugShort, named, slugged,
    fitsVarchar_of_length_le sent short, slugFits, there]
  cases taken : db.organizations.any fun x => x.slug = slugify lower name with
  | true =>
    obtain ⟨other, mem, same⟩ := List.any_eq_true.mp taken
    exact .taken ⟨other, mem, of_decide_eq_true same⟩
  | false =>
    refine .stored (List.mem_append_right _ List.mem_cons_self) named ?_ slugShort
      ⟨_, List.mem_append_right _ List.mem_cons_self, rfl, rfl, rfl⟩
    rw [slugged]
    exact slugForm_slugify lower name

theorem not_settled_dataError {column : String} :
    ¬ Settled lower name ownerId db (.error (.dataError column)) := nofun

end Outcome

/-- A request without a slug is settled exactly if its name has no NUL and the words of the
lowered name, with a hyphen between them, have a hundred characters at most. -/
theorem organization_creation_settled_iff (lower : String → String) (request : OrganizationCreateRequest)
    (noSlug : request.slug = none) (ownerId : UUID) (draw : Draw) (db : Database) (ready : Ready draw db)
    (owner : ∃ u ∈ db.users, u.id = ownerId) :
    Settled lower request.name ownerId db
        (createOrganization lower request.name request.slug ownerId draw db) ↔
      sendable request.name = true ∧
        (slugWords lower request.name).flatten.length + (slugWords lower request.name).length ≤ 101 := by
  have nameFits : fitsVarchar 255 request.name = true ↔ sendable request.name = true :=
    ⟨fun fits => ((Bool.and_eq_true _ _).mp fits).1, fun sent => fitsVarchar_of_length_le sent request.nameLength.2⟩
  rw [noSlug, ← fitsVarchar_slugify, ← nameFits]
  constructor
  · intro settled
    obtain ⟨o, made, named, slugged⟩ := newOrganization_eq lower request.name draw
    rw [createOrganization_eq ready made, named, slugged] at settled
    cases nameOk : fitsVarchar 255 request.name with
    | false =>
      rw [nameOk] at settled
      exact absurd settled not_settled_dataError
    | true =>
      cases slugOk : fitsVarchar 100 (slugify lower request.name) with
      | false =>
        rw [nameOk, slugOk] at settled
        exact absurd settled not_settled_dataError
      | true => exact ⟨rfl, rfl⟩
  · rintro ⟨nameOk, slugOk⟩
    exact settled_of_fits ready owner (nameFits.mp nameOk) request.nameLength.2 slugOk

namespace Demo

def draw : Draw := ⟨10, 11, 12, "", 0⟩

/-- One user and no organization. -/
def db : Database := { Database.empty with users := [⟨1, "a@example.com", true⟩] }

theorem ready : Ready draw db := ⟨nofun, nofun, nofun⟩

def request : OrganizationCreateRequest := ⟨"lab 7", none, by decide, nofun⟩

def letters : List Char := List.replicate 101 'a'

/-- A name of 101 letters. -/
def long : OrganizationCreateRequest where
  name := String.ofList letters
  slug := none
  nameLength := by
    rw [String.length_ofList]
    decide
  slugLength := nofun

end Demo

theorem organization_creation_settled_lab :
    Settled (fun s => s) Demo.request.name 1 Demo.db
        (createOrganization (fun s => s) Demo.request.name Demo.request.slug 1 Demo.draw Demo.db) ↔
      sendable Demo.request.name = true ∧
        (slugWords (fun s => s) Demo.request.name).flatten.length +
          (slugWords (fun s => s) Demo.request.name).length ≤ 101 :=
  organization_creation_settled_iff (fun s => s) Demo.request rfl 1 Demo.draw Demo.db Demo.ready
    ⟨_, List.mem_cons_self, rfl⟩

/-- An accepted name whose slug does not fit its column. -/
theorem long_name_fails :
    createOrganization (fun s => s) Demo.long.name none 1 Demo.draw Demo.db =
        .error (.dataError "organizations") ∧
      ¬ Settled (fun s => s) Demo.long.name 1 Demo.db
        (createOrganization (fun s => s) Demo.long.name none 1 Demo.draw Demo.db) := by
  have failed : createOrganization (fun s => s) Demo.long.name none 1 Demo.draw Demo.db =
      .error (.dataError "organizations") := by
    have oneWord : slugWords (fun s => s) Demo.long.name = [Demo.letters] := by
      have chars : Demo.long.name.toList = Demo.letters := String.toList_ofList
      rw [slugWords, chars]
      decide +kernel
    have unfit : fitsVarchar 100 (slugify (fun s => s) Demo.long.name) = false := by
      rw [← Bool.not_eq_true, fitsVarchar_slugify, oneWord]
      decide
    obtain ⟨o, made, -, slugged⟩ := newOrganization_eq (fun s => s) Demo.long.name Demo.draw
    rw [createOrganization_eq Demo.ready made, slugged, unfit, Bool.and_false]
    rfl
  refine ⟨failed, ?_⟩
  rw [failed]
  exact not_settled_dataError

end OrganizationCreation
