import CiRunner.State.Record
import CiRunner.Tables.Transactions
import CiRunner.Threads.Outline

/-! The policies by which an installation pays for the runners of forks, and the approvals
of single forks under them. Each operation is a transaction, or a sequence of statements
that are committed one by one; policies and approvals are rows of one database, in which
a policy is unique for its source repository and an approval for its source and fork. -/

namespace CiRunner.Sponsorship

open Text Tables Threads
open CiRunner.State (Time)

/-! ### Rows -/

inductive Mode where
  | approvalRequired | writePermission | organizationMember
  deriving DecidableEq, Repr

namespace Mode

def text : Mode → String
  | .approvalRequired => "approval_required"
  | .writePermission => "write_permission"
  | .organizationMember => "organization_member"

def parse (s : String) : Option Mode :=
  [approvalRequired, writePermission, organizationMember].find? (·.text = s)

end Mode

structure ForkSponsorshipPolicy where
  sponsorInstallationID : Int
  sourceRepositoryID : Int
  sourceRepositoryFullName : String
  mode : Mode
  enabled : Bool
  maxConcurrency : Int
  createdAt : Time := 0
  updatedAt : Time := 0
  deriving DecidableEq, Repr

structure ForkSponsorshipApproval where
  sponsorInstallationID : Int
  sourceRepositoryID : Int
  forkRepositoryID : Int
  forkRepositoryFullName : String
  forkOwnerID : Int
  forkOwnerLogin : String
  createdAt : Time := 0
  updatedAt : Time := 0
  deriving DecidableEq, Repr

inductive Row where
  | policy (p : ForkSponsorshipPolicy)
  | approval (a : ForkSponsorshipApproval)
  deriving DecidableEq, Repr

inductive RowKey where
  | policy (source : Int)
  | approval (source fork : Int)
  deriving DecidableEq, Repr

def Row.key : Row → RowKey
  | .policy p => .policy p.sourceRepositoryID
  | .approval a => .approval a.sourceRepositoryID a.forkRepositoryID

abbrev Rows := Table Row.key

abbrev Store := Database Row.key Empty

def policyOf (t : Rows) (source : Int) : Option ForkSponsorshipPolicy :=
  match t.find (.policy source) with
  | some (.policy p) => some p
  | _ => none

def approvalOf (t : Rows) (source fork : Int) : Option ForkSponsorshipApproval :=
  match t.find (.approval source fork) with
  | some (.approval a) => some a
  | _ => none

/-- The policy of a source repository, if it is one of the given sponsor. -/
def policyBy (t : Rows) (sponsor source : Int) : Option ForkSponsorshipPolicy :=
  (policyOf t source).filter fun p => p.sponsorInstallationID = sponsor

def approvalKeys (t : Rows) (sponsor source : Int) : List RowKey :=
  t.rows.filterMap fun
    | .approval a =>
      if a.sponsorInstallationID = sponsor ∧ a.sourceRepositoryID = source then
        some (.approval source a.forkRepositoryID)
      else none
    | .policy _ => none

/-! ### Errors -/

inductive Error where
  | sponsorInstallationID | sourceRepositoryID | sourceRepositoryFullName
  | mode (text : String)
  | maxConcurrency | approvalIdentity | conflict | notFound | database
  deriving DecidableEq, Repr

def Error.text : Error → String
  | .sponsorInstallationID => "sponsor installation id must be positive"
  | .sourceRepositoryID => "source repository id must be positive"
  | .sourceRepositoryFullName => "source repository full name is required"
  | .mode text => "unsupported fork sponsorship mode \"" ++ text ++ "\""
  | .maxConcurrency => "fork sponsorship max concurrency must be positive"
  | .approvalIdentity => "complete positive fork sponsorship approval identity is required"
  | .conflict => "state conflict"
  | .notFound => "state record not found"
  | .database => "database error"

structure PolicyInput where
  sponsorInstallationID : Int
  sourceRepositoryID : Int
  sourceRepositoryFullName : String
  mode : String
  enabled : Bool
  maxConcurrency : Int

/-- The policy with its texts trimmed, or what is wrong with it. -/
def validateForkSponsorshipPolicy (input : PolicyInput) : Except Error ForkSponsorshipPolicy :=
  let fullName := trimSpace input.sourceRepositoryFullName
  if input.sponsorInstallationID ≤ 0 then .error .sponsorInstallationID
  else if input.sourceRepositoryID ≤ 0 then .error .sourceRepositoryID
  else if fullName = "" then .error .sourceRepositoryFullName
  else match Mode.parse (trimSpace input.mode) with
    | none => .error (.mode (trimSpace input.mode))
    | some mode =>
      if input.maxConcurrency ≤ 0 then .error .maxConcurrency
      else .ok
        { sponsorInstallationID := input.sponsorInstallationID
          sourceRepositoryID := input.sourceRepositoryID
          sourceRepositoryFullName := fullName
          mode := mode
          enabled := input.enabled
          maxConcurrency := input.maxConcurrency }

/-- The approval with its texts trimmed, if it is complete. -/
def validateApproval (a : ForkSponsorshipApproval) : Except Error ForkSponsorshipApproval :=
  let fullName := trimSpace a.forkRepositoryFullName
  let login := trimSpace a.forkOwnerLogin
  if a.sponsorInstallationID ≤ 0 ∨ a.sourceRepositoryID ≤ 0 ∨ a.forkRepositoryID ≤ 0 ∨
      a.forkOwnerID ≤ 0 ∨ fullName = "" ∨ login = "" then
    .error .approvalIdentity
  else .ok { a with forkRepositoryFullName := fullName, forkOwnerLogin := login }

/-! ### Statements -/

inductive Call where
  /-- Take a connection, on which no transaction is open. -/
  | connect
  | getPolicyBySource (source : Int)
  | getPolicy (sponsor source : Int)
  | getApproval (source fork : Int)
  | insertPolicy (p : ForkSponsorshipPolicy)
  | updatePolicy (p : ForkSponsorshipPolicy)
  | lockPolicy (sponsor source : Int)
  | upsertApproval (a : ForkSponsorshipApproval)
  | deleteApprovals (sponsor source : Int)
  | deletePolicy (sponsor source : Int)
  | deleteApproval (sponsor source fork : Int)
  | commit
  | rollback

/-- What a statement returns, unless the database fails it: a row, or whether rows were affected. -/
def Call.Result : Call → Type
  | .getPolicyBySource _ | .getPolicy _ _ => Option ForkSponsorshipPolicy
  | .getApproval _ _ => Option ForkSponsorshipApproval
  | .insertPolicy _ | .updatePolicy _ | .lockPolicy _ _ | .deleteApproval _ _ _ => Bool
  | .connect | .upsertApproval _ | .deleteApprovals _ _ | .deletePolicy _ _ | .commit
  | .rollback => Unit

def Call.Reply (c : Call) : Type := Option c.Result

/-- The time, whether the database fails the statement, and whether a commit that it seems to fail
was made all the same. -/
structure Choice where
  now : Time := 0
  fails : Bool := false
  committed : Bool := false

/-- What a statement that does not fail does; it waits for the rows that others have locked. -/
def execute (i : ℕ) (c : Call) (now : Time) (db : Store) : Option (c.Result × Store) :=
  match c with
  | .connect => some ((), db.rollback i)
  | .getPolicyBySource source => some (policyOf (db.view i) source, db)
  | .getPolicy sponsor source => some (policyBy (db.view i) sponsor source, db)
  | .getApproval source fork => some (approvalOf (db.view i) source fork, db)
  | .insertPolicy p =>
    if !db.free i (.policy p.sourceRepositoryID) then none
    else if (policyOf (db.view i) p.sourceRepositoryID).isSome then some (false, db)
    else some (true, db.write i (.put (.policy { p with createdAt := now, updatedAt := now })))
  | .updatePolicy p =>
    match policyBy (db.view i) p.sponsorInstallationID p.sourceRepositoryID with
    | none => some (false, db)
    | some old =>
      if db.free i (.policy p.sourceRepositoryID) then
        some (true, db.write i
          (.put (.policy { p with createdAt := old.createdAt, updatedAt := now })))
      else none
  | .lockPolicy sponsor source =>
    match policyBy (db.view i) sponsor source with
    | none => some (false, db)
    | some _ =>
      if db.free i (.policy source) then some (true, db.lock i (.policy source)) else none
  | .upsertApproval a =>
    if db.free i (.approval a.sourceRepositoryID a.forkRepositoryID) then
      let created :=
        ((approvalOf (db.view i) a.sourceRepositoryID a.forkRepositoryID).map (·.createdAt)).getD now
      some ((), db.write i (.put (.approval { a with createdAt := created, updatedAt := now })))
    else none
  | .deleteApprovals sponsor source =>
    let keys := approvalKeys (db.view i) sponsor source
    if keys.all (db.free i ·) then some ((), db.writeAll i (keys.map .delete)) else none
  | .deletePolicy sponsor source =>
    match policyBy (db.view i) sponsor source with
    | none => some ((), db)
    | some _ =>
      if db.free i (.policy source) then some ((), db.write i (.delete (.policy source))) else none
  | .deleteApproval sponsor source fork =>
    match (approvalOf (db.view i) source fork).filter (·.sponsorInstallationID = sponsor) with
    | none => some (false, db)
    | some _ =>
      if db.free i (.approval source fork) then
        some (true, db.write i (.delete (.approval source fork)))
      else none
  | .commit => some ((), db.commit i)
  | .rollback => some ((), db.rollback i)

/-- What a statement that fails does. A transaction that fails to commit is rolled back, unless
only the answer was lost. -/
def failed (i : ℕ) (c : Call) (committed : Bool) (db : Store) : Store :=
  match c with
  | .commit => if committed then db.commit i else db.rollback i
  | .rollback => db.rollback i
  | _ => db

def serve (i : ℕ) (c : Call) (x : Choice) (db : Store) : Option (c.Reply × Store) :=
  if x.fails then some (none, failed i c x.committed db)
  else (execute i c x.now db).map fun (a, db') => (some a, db')

/-! ### Operations -/

abbrev P := Prog Call.Reply

def call (c : Call) : P c.Reply := Prog.ask c

/-- A statement, which is committed at once outside of a transaction. -/
def statement (within : Bool) (c : Call) : P (Except Error c.Result) := do
  match ← call c with
  | none => do
    let _ ← call .rollback
    pure (.error .database)
  | some a =>
    if within then pure (.ok a)
    else do
      match ← call .commit with
      | none => pure (.error .database)
      | some _ => pure (.ok a)

/-- The body of a transaction, which is committed if it succeeds. -/
def transaction {α : Type} (body : P (Except Error α)) : P (Except Error α) := do
  match ← body with
  | .error e => do
    let _ ← call .rollback
    pure (.error e)
  | .ok a => do
    match ← call .commit with
    | none => pure (.error .database)
    | some _ => pure (.ok a)

/-- A row that is read, or that it is not there. -/
def found {α : Type} : Option (Option α) → Except Error α
  | none => .error .database
  | some none => .error .notFound
  | some (some a) => .ok a

def getForkSponsorshipPolicy (sponsor source : Int) : P (Except Error ForkSponsorshipPolicy) := do
  return found (← call (.getPolicy sponsor source))

def getForkSponsorshipPolicyBySourceRepositoryID (source : Int) :
    P (Except Error ForkSponsorshipPolicy) := do
  return found (← call (.getPolicyBySource source))

def getForkSponsorshipApproval (source fork : Int) :
    P (Except Error ForkSponsorshipApproval) := do
  return found (← call (.getApproval source fork))

def createForkSponsorshipPolicy (within : Bool) (input : PolicyInput) :
    P (Except Error ForkSponsorshipPolicy) := do
  match validateForkSponsorshipPolicy input with
  | .error e => pure (.error e)
  | .ok policy =>
    match ← statement within (.insertPolicy policy) with
    | .error e => pure (.error e)
    | .ok false => pure (.error .conflict)
    | .ok true => getForkSponsorshipPolicy policy.sponsorInstallationID policy.sourceRepositoryID

def updateForkSponsorshipPolicy (within : Bool) (input : PolicyInput) :
    P (Except Error ForkSponsorshipPolicy) := do
  match validateForkSponsorshipPolicy input with
  | .error e => pure (.error e)
  | .ok policy =>
    match ← statement within (.updatePolicy policy) with
    | .error e => pure (.error e)
    | .ok true => getForkSponsorshipPolicy policy.sponsorInstallationID policy.sourceRepositoryID
    | .ok false =>
      match ← getForkSponsorshipPolicyBySourceRepositoryID policy.sourceRepositoryID with
      | .error e => pure (.error e)
      | .ok existing =>
        if existing.sponsorInstallationID ≠ policy.sponsorInstallationID then
          pure (.error .conflict)
        else pure (.ok existing)

def upsertForkSponsorshipPolicy (within : Bool) (input : PolicyInput) :
    P (Except Error ForkSponsorshipPolicy) := do
  match validateForkSponsorshipPolicy input with
  | .error e => pure (.error e)
  | .ok policy =>
    match ← getForkSponsorshipPolicyBySourceRepositoryID policy.sourceRepositoryID with
    | .ok existing =>
      if existing.sponsorInstallationID ≠ policy.sponsorInstallationID then
        pure (.error .conflict)
      else updateForkSponsorshipPolicy within input
    | .error .notFound => createForkSponsorshipPolicy within input
    | .error e => pure (.error e)

def lockForkSponsorshipPolicy (sponsor source : Int) : P (Except Error Unit) := do
  match ← call (.lockPolicy sponsor source) with
  | none => pure (.error .database)
  | some false => pure (.error .notFound)
  | some true => pure (.ok ())

def deleteForkSponsorshipPolicy (sponsor source : Int) : P (Except Error Unit) :=
  transaction do
    match ← lockForkSponsorshipPolicy sponsor source with
    | .error e => pure (.error e)
    | .ok () =>
      match ← call (.deleteApprovals sponsor source) with
      | none => pure (.error .database)
      | some () =>
        match ← call (.deletePolicy sponsor source) with
        | none => pure (.error .database)
        | some () => pure (.ok ())

def upsertForkSponsorshipApproval (input : ForkSponsorshipApproval) :
    P (Except Error ForkSponsorshipApproval) := do
  match validateApproval input with
  | .error e => pure (.error e)
  | .ok approval =>
    let saved ← transaction do
      match ← lockForkSponsorshipPolicy approval.sponsorInstallationID approval.sourceRepositoryID with
      | .error e => pure (.error e)
      | .ok () =>
        match ← call (.upsertApproval approval) with
        | none => pure (.error .database)
        | some () => pure (.ok ())
    match saved with
    | .error e => pure (.error e)
    | .ok () => getForkSponsorshipApproval approval.sourceRepositoryID approval.forkRepositoryID

def deleteForkSponsorshipApproval (within : Bool) (sponsor source fork : Int) :
    P (Except Error Unit) := do
  match ← statement within (.deleteApproval sponsor source fork) with
  | .error e => pure (.error e)
  | .ok true => pure (.ok ())
  | .ok false => pure (.error .notFound)

/-- The calls of the store. In a transaction of the caller, what a call writes is committed with
everything else that the caller writes; where the call has a transaction of its own, this is
the commit of that one, made later. -/
inductive Op where
  | create (within : Bool) (input : PolicyInput)
  | update (within : Bool) (input : PolicyInput)
  | upsert (within : Bool) (input : PolicyInput)
  | delete (sponsor source : Int)
  | approve (input : ForkSponsorshipApproval)
  | disapprove (within : Bool) (sponsor source fork : Int)

/-- An operation in a transaction of the caller, or by itself. -/
def operation {α : Type} (within : Bool) (body : P (Except Error α)) : P Unit := do
  match ← call .connect with
  | none => pure ()
  | some () => do
    let _ ← if within then transaction body else body
    pure ()

def Op.prog : Op → P Unit
  | .create within input => operation within (createForkSponsorshipPolicy within input)
  | .update within input => operation within (updateForkSponsorshipPolicy within input)
  | .upsert within input => operation within (upsertForkSponsorshipPolicy within input)
  | .delete sponsor source => operation false (deleteForkSponsorshipPolicy sponsor source)
  | .approve input => operation false (upsertForkSponsorshipApproval input)
  | .disapprove within sponsor source fork =>
    operation within (deleteForkSponsorshipApproval within sponsor source fork)

def machine : Machine Call.Reply Store Choice Op where
  serve := serve
  prog := Op.prog
  enabled _ _ := true
  restart := Database.abort

end CiRunner.Sponsorship
