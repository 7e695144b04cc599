/- source: proxy/connection/extended.rs, proxy/connection/relay.rs
   digest: When an Execute that is answered from the cache uses what origin's portal would run. -/
import PgCache.Proxy.Prepared

set_option autoImplicit false

namespace PgCache.Proxy.Mirror

open Data.Machine Prepared Option Function

inductive SessionEffect (Q V : Type) where
  | none
  /-- BEGIN -/
  | begins
  /-- COMMIT and ROLLBACK -/
  | ends
  | deallocate (name : String)
  | deallocateAll
  | discardAll
  | closeCursor (name : String)
  | closeAll
  /-- PREPARE -/
  | prepare (name : String) (sql : Q)
  /-- DECLARE … CURSOR -/
  | declare (name : String) (sql : Q) (parameters : V)

/-- Client messages with origin's answer to them, and the messages of origin the tables look at.
`accepted` says that origin finds no fault with the message itself, `ok` that running it raises no
error. -/
inductive Message (Q V : Type) where
  | parse (name : String) (sql : Q) (oids : List Nat) (accepted : Bool)
  | bind (portal statement : String) (parameters : V) (formats : ResultFormats) (accepted : Bool)
  | describe (target : Target) (name : String)
  | execute (portal : String) (ok : Bool)
  | close (target : Target) (name : String)
  | sync
  | flush
  /-- a simple query -/
  | query (effects : List (SessionEffect Q V)) (ok : Bool)
  | parameterDescription (name : String) (oids : List Nat)
  | parseComplete (name : String)
  | readyForQuery (inTransaction : Bool)

/-- The session the client would have at origin itself. After an error in the extended protocol
origin skips everything up to the Sync. -/
structure OriginSession (Q V : Type) where
  statements : String → Option Q
  portals : String → Option (Q × V)
  inBlock : Bool
  skipping : Bool

variable {Q V : Type}

namespace OriginSession

def new : OriginSession Q V := ⟨fun _ => none, fun _ => none, false, false⟩

variable (origin : OriginSession Q V)

def dropPortals : OriginSession Q V :=
  { origin with portals := fun _ => none }

def finish : OriginSession Q V :=
  if origin.inBlock then origin else origin.dropPortals

def fail : OriginSession Q V :=
  { origin.dropPortals with skipping := true }

def apply : SessionEffect Q V → OriginSession Q V
  | .none => origin
  | .begins => { origin with inBlock := true }
  | .ends => { origin.dropPortals with inBlock := false }
  | .deallocate name => { origin with statements := update origin.statements name none }
  | .deallocateAll =>
    { origin with statements := fun name => if name = "" then origin.statements name else none }
  | .discardAll =>
    { origin.dropPortals with
      statements := fun name => if name = "" then origin.statements name else none }
  | .closeCursor name => { origin with portals := update origin.portals name none }
  | .closeAll => origin.dropPortals
  | .prepare name sql =>
    { origin with statements := update origin.statements name (some sql) }
  | .declare name sql parameters =>
    { origin with portals := update origin.portals name (some (sql, parameters)) }

def makeRoom (name : String) : OriginSession Q V :=
  if name = "" then { origin with statements := update origin.statements name none }
  else origin

def query (effects : List (SessionEffect Q V)) (ok : Bool) : OriginSession Q V :=
  let origin := { origin with
    statements := update origin.statements "" none
    portals := update origin.portals "" none }
  let origin := effects.foldl apply origin
  if ok then origin.finish else origin.dropPortals

/-- One message outside of an error, and whether origin finds no fault with it. A named statement
and a named portal must be new; a portal takes the statement as it is now. -/
def attempt (effect : Q → SessionEffect Q V) (origin : OriginSession Q V) :
    Message Q V → Bool × OriginSession Q V
  | .parse name sql _ accepted =>
    let origin := origin.makeRoom name
    if accepted = true ∧ origin.statements name = none then
      (true, { origin with statements := update origin.statements name (some sql) })
    else (false, origin)
  | .bind portal statement parameters _ accepted =>
    match origin.statements statement with
    | none => (false, origin)
    | some sql =>
      if accepted = true ∧ (portal = "" ∨ (origin.portals portal).isNone = true) then
        (true, { origin with portals := update origin.portals portal (some (sql, parameters)) })
      else (false, origin)
  | .describe .statement name => ((origin.statements name).isSome, origin)
  | .describe .portal name => ((origin.portals name).isSome, origin)
  | .execute portal ok =>
    match origin.portals portal with
    | none => (false, origin)
    | some (sql, _) => if ok then (true, origin.apply (effect sql)) else (false, origin)
  | .close .statement name =>
    (true, { origin with statements := update origin.statements name none })
  | .close .portal name => (true, { origin with portals := update origin.portals name none })
  | .sync => (true, origin.finish)
  | .query effects ok => (true, origin.query effects ok)
  | .flush | .parameterDescription _ _ | .parseComplete _ | .readyForQuery _ => (true, origin)

def step (effect : Q → SessionEffect Q V) (origin : OriginSession Q V) (msg : Message Q V) :
    OriginSession Q V :=
  if origin.skipping then
    match msg with
    | .sync => { origin.finish with skipping := false }
    | _ => origin
  else
    let (fine, after) := origin.attempt effect msg
    if fine then after else after.fail

def running (portal : String) : Option (Q × V) :=
  if origin.skipping then none else origin.portals portal

end OriginSession

/-- Origin's answer to a message: whether it is an error, what the statements it ran do, and
whether a block is open behind it. -/
structure Outcome (Q V : Type) where
  error : Bool
  ran : List (SessionEffect Q V)
  inBlock : Bool

def OriginSession.outcome (effect : Q → SessionEffect Q V) (origin : OriginSession Q V)
    (msg : Message Q V) : Outcome Q V where
  error := match msg with
    | .query _ ok => !ok
    | _ => !(origin.attempt effect msg).1
  ran := match msg with
    | .query effects _ => effects
    | .execute portal ok =>
      if ok then ((origin.portals portal).map fun live => effect live.1).toList else []
    | _ => []
  inBlock := (origin.step effect msg).inBlock

/-- How a statement name stands: not in use since its last Close, in use with the text of the one
Parse that origin accepted and nothing has touched since, or neither. -/
inductive Standing (Q : Type) where
  | unused
  | text (sql : Q)
  | unsure
  deriving DecidableEq

/-- What can be told from the messages of the client and origin's answers to them alone: how each
name stands, and each portal that nothing has touched since its Bind, with its statement, text
and values. `failed` says that an error came after the last Sync. -/
structure Watch (Q V : Type) where
  statements : String → Standing Q
  portals : String → Option (String × Q × V)
  failed : Bool

namespace Watch

def new : Watch Q V := ⟨fun _ => .unused, fun _ => none, false⟩

variable (watch : Watch Q V)

def forgetPortals : Watch Q V := { watch with portals := fun _ => none }

def forgetPortal (portal : String) : Watch Q V :=
  { watch with portals := update watch.portals portal none }

def forgetBound (name : String) : Watch Q V :=
  { watch with
    portals := fun portal => (watch.portals portal).filter fun bound => bound.1 ≠ name }

def shake (names : String → Bool) : Watch Q V :=
  { watch with
    statements := fun name =>
      match watch.statements name with
      | .text sql => if names name then .unsure else .text sql
      | standing => standing }

def apply : SessionEffect Q V → Watch Q V
  | .none | .begins => watch
  | .ends | .closeAll => watch.forgetPortals
  | .deallocate name | .prepare name _ => watch.shake (· = name)
  | .deallocateAll => watch.shake (· ≠ "")
  | .discardAll => (watch.shake (· ≠ "")).forgetPortals
  | .closeCursor name | .declare name _ _ => watch.forgetPortal name

def parse (name : String) (sql : Q) (rejected : Bool) : Watch Q V :=
  let standing := if rejected then .unsure else .text sql
  if name = "" then
    { watch.forgetBound name with statements := update watch.statements name standing }
  else
    match watch.statements name with
    | .unused => { watch with statements := update watch.statements name standing }
    | _ => watch

def bind (portal statement : String) (parameters : V) (rejected : Bool) : Watch Q V :=
  { watch with
    portals := update watch.portals portal
      (match watch.statements statement with
      | .text sql => if rejected then none else some (statement, sql, parameters)
      | _ => none) }

def heard (msg : Message Q V) (rejected : Bool) : Watch Q V :=
  match msg with
  | .parse name sql _ _ => watch.parse name sql rejected
  | .bind portal statement parameters _ _ => watch.bind portal statement parameters rejected
  | .close .statement name =>
    { watch.forgetBound name with statements := update watch.statements name .unused }
  | .close .portal name => watch.forgetPortal name
  | .query _ _ => (watch.shake (· = "")).forgetPortal ""
  | .readyForQuery inTransaction => if inTransaction then watch else watch.forgetPortal ""
  | _ => watch

def answered (msg : Message Q V) (outcome : Outcome Q V) : Watch Q V :=
  let watch := outcome.ran.foldl apply watch
  match msg with
  | .query _ _ =>
    if outcome.error = false ∧ outcome.inBlock = true then watch else watch.forgetPortals
  | .sync => if outcome.inBlock then watch else watch.forgetPortals
  | _ => if outcome.error then { watch.forgetPortals with failed := true } else watch

def step (msg : Message Q V) (outcome : Outcome Q V) : Watch Q V :=
  if watch.failed then
    match msg with
    | .sync => { watch with failed := false }
    | _ => watch.heard msg true
  else (watch.heard msg outcome.error).answered msg outcome

end Watch

structure Session (Q V : Type) where
  tables : Tables Q V
  origin : OriginSession Q V
  watch : Watch Q V

def Session.new : Session Q V := ⟨.new, .new, .new⟩

def tablesStep (analyze : Q → StatementType) (tables : Tables Q V)
    (origin : OriginSession Q V) : Message Q V → Tables Q V
  | .parse name sql oids _ => tables.handleParseMessage analyze name sql oids
  | .bind portal statement parameters formats _ =>
    tables.handleBindMessage portal statement parameters formats
  | .describe target _ => tables.handleDescribeMessage target
  | .execute portal _ => tables.handleExecuteMessage portal (origin.running portal)
  | .close target name => tables.handleCloseMessage target name
  | .sync | .flush => tables.bufferTake
  | .query _ _ => tables
  | .parameterDescription name oids => tables.parameterDescriptionReceived name oids
  | .parseComplete name => tables.parseComplete name
  | .readyForQuery inTransaction => tables.readyForQueryHandle inTransaction

def Session.step (analyze : Q → StatementType) (effect : Q → SessionEffect Q V)
    (session : Session Q V) (msg : Message Q V) : Option (Session Q V) :=
  some ⟨tablesStep analyze session.tables session.origin msg, session.origin.step effect msg,
    session.watch.step msg (session.origin.outcome effect msg)⟩

/-- An Execute that could be answered from the cache is of a portal nothing has touched since its
Bind. -/
def Untouched (session : Session Q V) : Message Q V → Prop
  | .execute portal _ =>
    (session.tables.executeCacheCandidate portal session.tables.pendingDescribe).isSome = true →
      (session.watch.portals portal).isSome = true
  | _ => True

section Invariant

variable {watch watch' : Watch Q V} {tables tables' : Tables Q V}
    {origin origin' : OriginSession Q V}
  {name : String}

structure Weaker (watch watch' : Watch Q V) : Prop where
  unused : ∀ name, watch'.statements name = .unused → watch.statements name = .unused
  texts : ∀ name sql, watch'.statements name = .text sql → watch.statements name = .text sql
  portals : ∀ portal bound, watch'.portals portal = some bound → watch.portals portal = some bound

theorem Weaker.refl (watch : Watch Q V) : Weaker watch watch :=
  ⟨fun _ => id, fun _ _ => id, fun _ _ => id⟩

theorem Weaker.trans {last : Watch Q V} (first : Weaker watch watch') (snd : Weaker watch' last) :
    Weaker watch last :=
  ⟨fun name => first.unused name ∘ snd.unused name,
    fun name sql => first.texts name sql ∘ snd.texts name sql,
    fun portal bound => first.portals portal bound ∘ snd.portals portal bound⟩

theorem of_update_none {A B : Type} [DecidableEq A] {table : A → Option B} {key other : A}
    {value : B} (known : update table key none other = some value) :
    other ≠ key ∧ table other = some value := by
  by_cases same : other = key
  · subst same
    rw [update_self] at known
    cases known
  · exact ⟨same, by rwa [update_of_ne same] at known⟩

theorem weaker_forgetPortals (watch : Watch Q V) : Weaker watch watch.forgetPortals :=
  ⟨fun _ => id, fun _ _ => id, nofun⟩

theorem weaker_forgetPortal (watch : Watch Q V) (portal : String) :
    Weaker watch (watch.forgetPortal portal) :=
  ⟨fun _ => id, fun _ _ => id, fun _ _ known => (of_update_none known).2⟩

theorem shake_text {names : String → Bool} {sql : Q}
    (known : (watch.shake names).statements name = .text sql) :
    names name = false ∧ watch.statements name = .text sql := by
  simp only [Watch.shake] at known
  split at known
  · next isText =>
    split at known
    · cases known
    · next kept =>
      cases known
      exact ⟨Bool.eq_false_iff.mpr kept, isText⟩
  · next other => exact (other sql known).elim

theorem weaker_shake (watch : Watch Q V) (names : String → Bool) :
    Weaker watch (watch.shake names) := by
  refine ⟨fun name known => ?_, fun _ _ known => (shake_text known).2, fun _ _ => id⟩
  simp only [Watch.shake] at known
  split at known
  · split at known <;> cases known
  · exact known

theorem weaker_apply (watch : Watch Q V) (effect : SessionEffect Q V) :
    Weaker watch (watch.apply effect) := by
  cases effect with
  | none | begins => exact .refl watch
  | ends | closeAll => exact weaker_forgetPortals watch
  | deallocate | deallocateAll | prepare => exact weaker_shake watch _
  | discardAll => exact (weaker_shake watch _).trans (weaker_forgetPortals _)
  | closeCursor name | declare name => exact weaker_forgetPortal watch name

theorem weaker_answered (watch : Watch Q V) (msg : Message Q V) (outcome : Outcome Q V) :
    Weaker watch (watch.answered msg outcome) := by
  have ran : ∀ (effects : List (SessionEffect Q V)) (watch : Watch Q V),
      Weaker watch (effects.foldl Watch.apply watch) := by
    intro effects
    induction effects with
    | nil => exact .refl
    | cons effect effects ih => exact fun watch => (weaker_apply watch effect).trans (ih _)
  have here := ran outcome.ran watch
  have dropped := here.trans (weaker_forgetPortals _)
  unfold Watch.answered
  dsimp only
  split
  · split
    · exact here
    · exact dropped
  · split
    · exact here
    · exact dropped
  · split
    · exact ⟨dropped.unused, dropped.texts, dropped.portals⟩
    · exact here

structure Stored (watch : Watch Q V) (tables : Tables Q V) : Prop where
  unused : ∀ name, watch.statements name = .unused → tables.text name = none
  texts : ∀ name sql, watch.statements name = .text sql → tables.text name = some sql
  portals : ∀ name bound, watch.portals name = some bound →
    tables.text bound.1 = some bound.2.1 ∧ ∃ portal, tables.portals name = some portal ∧
      portal.statementName = bound.1 ∧ portal.parameters = bound.2.2

theorem Stored.weaker (stored : Stored watch tables) (weaker : Weaker watch watch') :
    Stored watch' tables :=
  ⟨fun name known => stored.unused name (weaker.unused name known),
    fun name sql known => stored.texts name sql (weaker.texts name sql known),
    fun name bound known => stored.portals name bound (weaker.portals name bound known)⟩

theorem Stored.of_text (stored : Stored watch tables)
    (texts : ∀ name, tables'.text name = tables.text name)
    (portals : tables'.portals = tables.portals) : Stored watch tables' :=
  ⟨fun name known => (texts name).trans (stored.unused name known),
    fun name sql known => (texts name).trans (stored.texts name sql known),
    fun name bound known => by
      rw [texts, portals]
      exact stored.portals name bound known⟩

theorem Stored.forgetPortal (stored : Stored watch tables) (portal : String) :
    Stored (watch.forgetPortal portal)
      { tables with portals := update tables.portals portal none } := by
  refine ⟨stored.unused, stored.texts, fun name bound known => ?_⟩
  obtain ⟨differs, known⟩ := of_update_none known
  obtain ⟨text, held, there, rest⟩ := stored.portals name bound known
  exact ⟨text, held, (update_of_ne differs _ _).trans there, rest⟩

theorem Stored.restate (stored : Stored watch tables) {standing : Standing Q}
    {bounds : String → Option (String × Q × V)} {failed : Bool}
    (others : ∀ other, other ≠ name → tables'.text other = tables.text other)
    (unused : standing = .unused → tables'.text name = none)
    (text : ∀ sql, standing = .text sql → tables'.text name = some sql)
    (portals : tables'.portals = tables.portals)
    (bound : ∀ portal bound, bounds portal = some bound →
      watch.portals portal = some bound ∧ tables'.text bound.1 = tables.text bound.1) :
    Stored ⟨update watch.statements name standing, bounds, failed⟩ tables' := by
  refine ⟨fun other known => ?_, fun other sql known => ?_, fun portal held known => ?_⟩
  · by_cases same : other = name
    · subst same
      exact unused ((update_self other _ _).symm.trans known)
    · exact (others other same).trans
        (stored.unused other ((update_of_ne same _ _).symm.trans known))
  · by_cases same : other = name
    · subst same
      exact text sql ((update_self other _ _).symm.trans known)
    · exact (others other same).trans
        (stored.texts other sql ((update_of_ne same _ _).symm.trans known))
  · obtain ⟨known, same⟩ := bound portal held known
    rw [same, portals]
    exact stored.portals portal held known

theorem of_filter {portal : String} {bound : String × Q × V}
    (known : (watch.forgetBound name).portals portal = some bound) :
    watch.portals portal = some bound ∧ bound.1 ≠ name := by
  obtain ⟨known, differs⟩ := Option.filter_eq_some_iff.mp known
  exact ⟨known, of_decide_eq_true differs⟩

theorem Stored.parse (stored : Stored watch tables) (name : String) (stmt : PreparedStatement Q)
    (rejected : Bool) :
    Stored (watch.parse name stmt.sql rejected) (tables.statementStore name stmt) := by
  have inUse : (if rejected then .unsure else .text stmt.sql : Standing Q) ≠ .unused := by
    cases rejected <;> nofun
  have others : ∀ other, other ≠ name →
      (tables.statementStore name stmt).text other = tables.text other := fun other differs =>
    (text_statementStore name other stmt).trans (if_neg fun same => differs same.1)
  have text : name = "" ∨ tables.text name = none → ∀ sql,
      (if rejected then .unsure else .text stmt.sql : Standing Q) = .text sql →
        (tables.statementStore name stmt).text name = some sql := by
    intro stores sql isText
    rw [text_statementStore, if_pos ⟨rfl, stores⟩]
    cases rejected <;> cases isText
    rfl
  unfold Watch.parse
  dsimp only
  split
  · next unnamed =>
    refine stored.restate others (absurd · inUse) (text (.inl unnamed)) rfl ?_
    intro portal bound known
    obtain ⟨known, differs⟩ := of_filter known
    exact ⟨known, others _ differs⟩
  · next named =>
    -- a text that is there stays: only a name without one is stored
    have keeps : ∀ other sql, tables.text other = some sql →
        (tables.statementStore name stmt).text other = tables.text other := by
      intro other sql there
      refine (text_statementStore name other stmt).trans (if_neg ?_)
      rintro ⟨rfl, unnamed | absent⟩
      · exact named unnamed
      · exact absurd (absent.symm.trans there) nofun
    have kept : ∀ portal bound, watch.portals portal = some bound →
        (tables.statementStore name stmt).text bound.1 = tables.text bound.1 :=
      fun portal bound known => keeps _ _ (stored.portals portal bound known).1
    split
    · next fresh =>
      exact stored.restate others (absurd · inUse) (text (.inr (stored.unused name fresh))) rfl
        fun portal bound known => ⟨known, kept portal bound known⟩
    · next taken =>
      refine ⟨fun other known => ?_, fun other sql known => ?_, fun portal bound known => ?_⟩
      · have differs : other ≠ name := fun same => taken (same ▸ known)
        exact (others other differs).trans (stored.unused other known)
      · have there := stored.texts other sql known
        exact (keeps other sql there).trans there
      · rw [kept portal bound known]
        exact stored.portals portal bound known

theorem Stored.bind (stored : Stored watch tables) (portal statement : String) (parameters : V)
    (formats : ResultFormats) (rejected : Bool) :
    Stored (watch.bind portal statement parameters rejected)
      (tables.portalStore portal statement parameters formats) := by
  refine ⟨stored.unused, stored.texts, fun name bound known => ?_⟩
  change update watch.portals portal _ name = some bound at known
  by_cases same : name = portal
  · subst same
    rw [update_self] at known
    split at known
    · next sql isText =>
      split at known
      · cases known
      · cases known
        exact ⟨stored.texts _ _ isText, _, update_self name _ _, rfl, rfl⟩
    · cases known
  · rw [update_of_ne same] at known
    obtain ⟨text, held, there, rest⟩ := stored.portals name bound known
    exact ⟨text, held, (update_of_ne same _ _).trans there, rest⟩

theorem Stored.closeStatement (stored : Stored watch tables) (name : String) :
    Stored { watch.forgetBound name with statements := update watch.statements name .unused }
      { tables with preparedStatements := update tables.preparedStatements name none } := by
  have others : ∀ other, other ≠ name → ({ tables with
      preparedStatements := update tables.preparedStatements name none } : Tables Q V).text other =
      tables.text other := by
    intro other differs
    simp [Tables.text, differs]
  refine stored.restate others (fun _ => by simp [Tables.text]) ?_ rfl ?_
  · rintro _ ⟨⟩
  · intro portal bound known
    obtain ⟨known, differs⟩ := of_filter known
    exact ⟨known, others _ differs⟩

theorem Stored.heard (analyze : Q → StatementType) (stored : Stored watch tables)
    (msg : Message Q V) (rejected : Bool) :
    Stored (watch.heard msg rejected) (tablesStep analyze tables origin msg) := by
  cases msg with
  | parse name sql oids accepted =>
    exact (stored.parse name ⟨sql, oids, analyze sql, false, false⟩ rejected).of_text
      (fun _ => rfl) rfl
  | bind portal statement parameters formats accepted =>
    exact (stored.bind portal statement parameters formats rejected).of_text (fun _ => rfl) rfl
  | close target name =>
    cases target with
    | statement => exact (stored.closeStatement name).of_text (fun _ => rfl) rfl
    | portal => exact (stored.forgetPortal name).of_text (fun _ => rfl) rfl
  | query => exact (stored.weaker (weaker_shake watch _)).weaker (weaker_forgetPortal _ _)
  | parameterDescription name oids =>
    refine stored.of_text (fun _ => text_statementModify ?_ name _) rfl
    exact fun _ => rfl
  | parseComplete name =>
    refine stored.of_text (fun _ => text_statementModify ?_ name _) rfl
    exact fun _ => rfl
  | readyForQuery inTransaction =>
    cases inTransaction
    · exact stored.forgetPortal ""
    · exact stored
  | describe | execute | sync | flush => exact stored.of_text (fun _ => rfl) rfl

structure Known (watch : Watch Q V) (origin : OriginSession Q V) : Prop where
  texts : ∀ name sql, watch.statements name = .text sql → origin.statements name = some sql
  portals : ∀ name bound, watch.portals name = some bound → origin.portals name = some bound.2

theorem Known.weaker (known : Known watch origin) (weaker : Weaker watch watch') :
    Known watch' origin :=
  ⟨fun name sql told => known.texts name sql (weaker.texts name sql told),
    fun name bound told => known.portals name bound (weaker.portals name bound told)⟩

theorem Known.dropPortals (known : Known watch origin) :
    Known watch.forgetPortals origin.dropPortals :=
  ⟨known.texts, nofun⟩

theorem Known.forgetPortal (known : Known watch origin) (name : String)
    (portals : ∀ other, other ≠ name → origin'.portals other = origin.portals other)
    (statements : origin'.statements = origin.statements) :
    Known (watch.forgetPortal name) origin' := by
  refine ⟨fun other sql told => statements ▸ known.texts other sql told,
    fun other bound told => ?_⟩
  obtain ⟨differs, told⟩ := of_update_none told
  exact (portals other differs).trans (known.portals other bound told)

theorem Known.shake (known : Known watch origin) {names : String → Bool}
    (statements : ∀ name, names name = false → origin'.statements name = origin.statements name)
    (portals : origin'.portals = origin.portals) : Known (watch.shake names) origin' :=
  ⟨fun name sql told =>
    (statements name (shake_text told).1).trans (known.texts name sql (shake_text told).2),
    fun name bound told => portals ▸ known.portals name bound told⟩

theorem Known.apply (known : Known watch origin) (effect : SessionEffect Q V) :
    Known (watch.apply effect) (origin.apply effect) := by
  have updated : ∀ (name other : String) (value : Option Q), decide (other = name) = false →
      update origin.statements name value other = origin.statements other :=
    fun name other value differs => update_of_ne (of_decide_eq_false differs) _ _
  have unnamed : ∀ other : String, decide (other ≠ "") = false →
      (if other = "" then origin.statements other else none) = origin.statements other :=
    fun other same => if_pos (not_not.mp (of_decide_eq_false same))
  cases effect with
  | none => exact known
  | begins => exact ⟨known.texts, known.portals⟩
  | ends => exact ⟨known.texts, nofun⟩
  | closeAll => exact known.dropPortals
  | deallocate name => exact known.shake (fun other => updated name other _) rfl
  | prepare name sql => exact known.shake (fun other => updated name other _) rfl
  | deallocateAll => exact known.shake unnamed rfl
  | discardAll =>
    have shaken : Known (watch.shake _) (origin.apply .deallocateAll) := known.shake unnamed rfl
    exact ⟨shaken.texts, nofun⟩
  | closeCursor name | declare name =>
    exact known.forgetPortal name (fun other differs => update_of_ne differs _ _) rfl

theorem Known.ran (known : Known watch origin) (effects : List (SessionEffect Q V)) :
    Known (effects.foldl Watch.apply watch) (effects.foldl OriginSession.apply origin) := by
  induction effects generalizing watch origin with
  | nil => exact known
  | cons effect effects ih => exact ih (known.apply effect)

theorem of_update_text {standing : Standing Q} {other : String} {sql : Q}
    (told : update watch.statements name standing other = .text sql)
    (untold : standing ≠ .text sql) :
    other ≠ name ∧ watch.statements other = .text sql := by
  by_cases same : other = name
  · subst same
    exact absurd ((update_self other _ _).symm.trans told) untold
  · exact ⟨same, (update_of_ne same _ _).symm.trans told⟩

theorem parse_rejected (watch : Watch Q V) (name : String) (sql : Q) :
    (∀ other text, (watch.parse name sql true).statements other = .text text →
      (name = "" → other ≠ "") ∧ watch.statements other = .text text) ∧
    ∀ portal bound, (watch.parse name sql true).portals portal = some bound →
      watch.portals portal = some bound := by
  unfold Watch.parse
  dsimp only
  split
  · next unnamed =>
    refine ⟨fun other text told => ?_, fun _ _ told => (of_filter told).1⟩
    obtain ⟨differs, told⟩ := of_update_text told nofun
    exact ⟨fun _ => unnamed ▸ differs, told⟩
  · next named =>
    split
    · exact ⟨fun other text told => ⟨fun unnamed => absurd unnamed named,
        (of_update_text told nofun).2⟩, fun _ _ => id⟩
    · exact ⟨fun _ _ told => ⟨fun unnamed => absurd unnamed named, told⟩, fun _ _ => id⟩

theorem makeRoom_statements (origin : OriginSession Q V) {other : String}
    (differs : name = "" → other ≠ "") :
    (origin.makeRoom name).statements other = origin.statements other := by
  unfold OriginSession.makeRoom
  split
  · next unnamed => exact update_of_ne (unnamed ▸ differs unnamed) _ _
  · rfl

theorem makeRoom_portals (origin : OriginSession Q V) :
    (origin.makeRoom name).portals = origin.portals := by
  unfold OriginSession.makeRoom
  split <;> rfl

theorem Known.parseRejected (known : Known watch origin) (name : String) (sql : Q) :
    Known (watch.parse name sql true) (origin.makeRoom name) := by
  obtain ⟨texts, portals⟩ := parse_rejected watch name sql
  refine ⟨fun other text told => ?_, fun portal bound told => ?_⟩
  · obtain ⟨differs, told⟩ := texts other text told
    exact (makeRoom_statements origin differs).trans (known.texts other text told)
  · rw [makeRoom_portals]
    exact known.portals portal bound (portals portal bound told)

theorem Known.parse (known : Known watch origin) (name : String) (sql : Q)
    (free : (origin.makeRoom name).statements name = none) :
    Known (watch.parse name sql false)
      { origin.makeRoom name with
        statements := update (origin.makeRoom name).statements name (some sql) } := by
  have others : ∀ other text, other ≠ name → watch.statements other = .text text →
      update (origin.makeRoom name).statements name (some sql) other = some text := by
    intro other text differs told
    rw [update_of_ne differs, makeRoom_statements origin fun unnamed => unnamed ▸ differs]
    exact known.texts other text told
  have restated : ∀ other text, update watch.statements name (.text sql) other = .text text →
      update (origin.makeRoom name).statements name (some sql) other = some text := by
    intro other text told
    by_cases same : other = name
    · subst same
      rw [update_self] at told ⊢
      exact congrArg some (Standing.text.inj told)
    · exact others other text same ((update_of_ne same _ _).symm.trans told)
  have portals : ∀ portal bound, watch.portals portal = some bound →
      (origin.makeRoom name).portals portal = some bound.2 := by
    intro portal bound told
    rw [makeRoom_portals]
    exact known.portals portal bound told
  unfold Watch.parse
  dsimp only
  split
  · exact ⟨restated, fun portal bound told => portals portal bound (of_filter told).1⟩
  · next named =>
    split
    · exact ⟨restated, portals⟩
    · refine ⟨fun other text told => others other text (fun same => ?_) told, portals⟩
      subst same
      have kept : (origin.makeRoom other).statements other = origin.statements other :=
        makeRoom_statements origin fun unnamed => absurd unnamed named
      exact absurd (free.symm.trans (kept.trans (known.texts other text told))) nofun

theorem Known.bind (known : Known watch origin) (portal statement : String) (parameters : V)
    {sql : Q} (found : origin.statements statement = some sql) :
    Known (watch.bind portal statement parameters false)
      { origin with portals := update origin.portals portal (some (sql, parameters)) } := by
  refine ⟨known.texts, fun name bound told => ?_⟩
  change update watch.portals portal _ name = some bound at told
  change update origin.portals portal _ name = some bound.2
  by_cases same : name = portal
  · subst same
    rw [update_self] at told ⊢
    split at told
    · next text isText =>
      cases told
      obtain rfl := Option.some_inj.mp (found.symm.trans (known.texts statement text isText))
      rfl
    · cases told
  · rw [update_of_ne same] at told ⊢
    exact known.portals name bound told

theorem bind_rejected (watch : Watch Q V) (portal statement : String) (parameters : V) :
    watch.bind portal statement parameters true = watch.forgetPortal portal := by
  unfold Watch.bind Watch.forgetPortal
  cases watch.statements statement <;> rfl

theorem Known.skipped (known : Known watch origin) (msg : Message Q V) :
    Known (watch.heard msg true) origin := by
  have forgotten : ∀ portal, Known (watch.forgetPortal portal) origin :=
    fun portal => known.weaker (weaker_forgetPortal watch portal)
  cases msg with
  | parse name sql oids accepted =>
    obtain ⟨texts, portals⟩ := parse_rejected watch name sql
    exact ⟨fun other text told => known.texts other text (texts other text told).2,
      fun portal bound told => known.portals portal bound (portals portal bound told)⟩
  | bind portal statement parameters =>
    change Known (watch.bind portal statement parameters true) origin
    rw [bind_rejected]
    exact forgotten portal
  | close target name =>
    cases target with
    | statement =>
      exact ⟨fun other text told => known.texts other text (of_update_text told nofun).2,
        fun portal bound told => known.portals portal bound (of_filter told).1⟩
    | portal => exact forgotten name
  | query => exact (known.weaker (weaker_shake watch _)).weaker (weaker_forgetPortal _ _)
  | readyForQuery inTransaction =>
    cases inTransaction
    · exact forgotten ""
    · exact known
  | describe | execute | sync | flush | parameterDescription | parseComplete => exact known

structure Live (watch : Watch Q V) (origin : OriginSession Q V) : Prop extends
    Known watch origin where
  failed : watch.failed = origin.skipping
  quiet : watch.failed = true → ∀ portal, watch.portals portal = none

theorem Known.fail (known : Known watch origin) :
    Live { watch.forgetPortals with failed := true } origin.fail :=
  ⟨⟨known.texts, nofun⟩, rfl, fun _ _ => rfl⟩

theorem skipping_apply (origin : OriginSession Q V) (effect : SessionEffect Q V) :
    (origin.apply effect).skipping = origin.skipping := by
  cases effect <;> rfl

theorem skipping_ran (origin : OriginSession Q V) (effects : List (SessionEffect Q V)) :
    (effects.foldl OriginSession.apply origin).skipping = origin.skipping := by
  induction effects generalizing origin with
  | nil => rfl
  | cons effect effects ih => exact (ih _).trans (skipping_apply origin effect)

theorem heard_failed (watch : Watch Q V) (msg : Message Q V) (rejected : Bool) :
    (watch.heard msg rejected).failed = watch.failed := by
  cases msg with
  | parse name sql =>
    unfold Watch.heard Watch.parse
    dsimp only
    split
    · rfl
    · split <;> rfl
  | close target => cases target <;> rfl
  | readyForQuery inTransaction => cases inTransaction <;> rfl
  | _ => rfl

theorem ran_failed (watch : Watch Q V) (effects : List (SessionEffect Q V)) :
    (effects.foldl Watch.apply watch).failed = watch.failed := by
  induction effects generalizing watch with
  | nil => rfl
  | cons effect effects ih =>
    refine (ih _).trans ?_
    cases effect <;> rfl

theorem Known.awake (known : Known watch origin) (calm : watch.failed = false)
    (runs : origin.skipping = false) : Live watch origin :=
  ⟨known, calm.trans runs.symm, fun failed => absurd (calm.symm.trans failed) nofun⟩

theorem Known.finish (known : Known watch origin) :
    Known (if origin.finish.inBlock then watch else watch.forgetPortals) origin.finish := by
  unfold OriginSession.finish
  cases opened : origin.inBlock with
  | true => simpa only [opened, if_true] using known
  | false =>
    have closed : origin.dropPortals.inBlock = false := opened
    simp only [closed, Bool.false_eq_true, if_false]
    exact known.dropPortals

theorem finish_skipping (origin : OriginSession Q V) :
    origin.finish.skipping = origin.skipping := by
  unfold OriginSession.finish
  split <;> rfl

theorem Live.skip {effect : Q → SessionEffect Q V} (live : Live watch origin)
    (failed : watch.failed = true) (msg : Message Q V) (outcome : Outcome Q V) :
    Live (watch.step msg outcome) (origin.step effect msg) := by
  have skipping : origin.skipping = true := live.failed.symm.trans failed
  have none := live.quiet failed
  have empty : Known watch origin.dropPortals :=
    ⟨live.texts, fun portal bound told => absurd ((none portal).symm.trans told) nofun⟩
  have skipped : Live (watch.heard msg true) origin := by
    refine ⟨live.toKnown.skipped msg, (heard_failed watch msg true).trans live.failed,
      fun _ portal => Option.eq_none_iff_forall_ne_some.mpr fun bound told => ?_⟩
    exact absurd ((empty.skipped msg).portals portal bound told) nofun
  unfold Watch.step OriginSession.step
  rw [if_pos failed, if_pos skipping]
  cases msg with
  | sync =>
    refine Known.awake ⟨fun name sql told => ?_, fun portal bound told => ?_⟩ rfl rfl
    · have same : origin.finish.statements = origin.statements := by
        unfold OriginSession.finish
        split <;> rfl
      exact (congrFun same name).trans (live.texts name sql told)
    · exact absurd ((none portal).symm.trans told) nofun
  | _ => exact skipped

theorem step_awake (effect : Q → SessionEffect Q V) (runs : origin.skipping = false)
    (msg : Message Q V) :
    origin.step effect msg = if (origin.attempt effect msg).1 then (origin.attempt effect msg).2
      else (origin.attempt effect msg).2.fail :=
  if_neg (runs ▸ Bool.false_ne_true)

theorem Known.queried (known : Known watch origin) (calm : watch.failed = false)
    (runs : origin.skipping = false) (ok : Bool) :
    Live (if (!ok) = false ∧ (if ok then origin.finish else origin.dropPortals).inBlock = true
      then watch else watch.forgetPortals)
      (if ok then origin.finish else origin.dropPortals) := by
  cases ok with
  | false => exact known.dropPortals.awake calm runs
  | true =>
    simp only [Bool.not_true, true_and, if_true]
    refine known.finish.awake ?_ ((finish_skipping origin).trans runs)
    split <;> exact calm

theorem Live.query (effect : Q → SessionEffect Q V) (live : Live watch origin)
    (calm : watch.failed = false) (effects : List (SessionEffect Q V)) (ok : Bool) :
    Live ((watch.heard (.query effects ok) (!ok)).answered (.query effects ok)
        (origin.outcome effect (.query effects ok))) (origin.query effects ok) := by
  have runs : origin.skipping = false := live.failed.symm.trans calm
  have start : Known ((watch.shake (· = "")).forgetPortal "") { origin with
      statements := update origin.statements "" none
      portals := update origin.portals "" none } := by
    have shaken : Known (watch.shake (· = "")) { origin with
        statements := update origin.statements "" none } :=
      live.toKnown.shake
        (fun name differs => update_of_ne (of_decide_eq_false differs) _ _) rfl
    exact shaken.forgetPortal "" (fun other differs => update_of_ne differs _ _) rfl
  have known := start.ran effects
  have awake : (effects.foldl Watch.apply ((watch.shake (· = "")).forgetPortal "")).failed =
      false := (ran_failed _ effects).trans calm
  have skips := (skipping_ran { origin with
      statements := update origin.statements "" none
      portals := update origin.portals "" none } effects).trans runs
  have block : (origin.outcome effect (.query effects ok)).inBlock =
      (origin.query effects ok).inBlock :=
    congrArg OriginSession.inBlock (step_awake effect runs (.query effects ok))
  simp only [Watch.heard, Watch.answered, block]
  exact known.queried awake skips ok

theorem live_attempt {effect : Q → SessionEffect Q V} {msg : Message Q V}
    (calm : watch.failed = false) (runs : origin.skipping = false)
    (asked : (origin.outcome effect msg).error = !(origin.attempt effect msg).1)
    (answers : ∀ (watch : Watch Q V) (outcome : Outcome Q V), watch.answered msg outcome =
      if outcome.error then
        { (outcome.ran.foldl Watch.apply watch).forgetPortals with failed := true }
      else outcome.ran.foldl Watch.apply watch)
    (fine : (origin.attempt effect msg).1 = true → Known ((origin.outcome effect msg).ran.foldl
      Watch.apply (watch.heard msg false)) (origin.attempt effect msg).2 ∧
        (origin.attempt effect msg).2.skipping = origin.skipping)
    (faulty : (origin.attempt effect msg).1 = false → Known ((origin.outcome effect msg).ran.foldl
      Watch.apply (watch.heard msg true)) (origin.attempt effect msg).2) :
    Live ((watch.heard msg (origin.outcome effect msg).error).answered msg
      (origin.outcome effect msg)) (origin.step effect msg) := by
  rw [step_awake effect runs, answers, asked]
  cases found : (origin.attempt effect msg).1 with
  | true =>
    obtain ⟨known, same⟩ := fine found
    simp only [Bool.not_true, Bool.false_eq_true, if_false, if_true]
    exact known.awake ((ran_failed _ _).trans ((heard_failed watch msg false).trans calm))
      (same.trans runs)
  | false =>
    simp only [Bool.not_false, Bool.false_eq_true, if_false, if_true]
    exact (faulty found).fail

theorem Live.step {effect : Q → SessionEffect Q V} (live : Live watch origin)
    (msg : Message Q V) :
    Live (watch.step msg (origin.outcome effect msg)) (origin.step effect msg) := by
  cases calm : watch.failed with
  | true => exact live.skip calm msg _
  | false =>
    have runs : origin.skipping = false := live.failed.symm.trans calm
    have known := live.toKnown
    have attempted := @live_attempt Q V watch origin effect
    unfold Watch.step
    rw [if_neg (calm ▸ Bool.false_ne_true)]
    cases msg with
    | parse name sql oids accepted =>
      refine attempted calm runs rfl (fun _ _ => rfl) (fun found => ?_) fun found => ?_
      · simp only [OriginSession.attempt] at found ⊢
        split at found
        · next free =>
          rw [if_pos free]
          refine ⟨known.parse name sql free.2, ?_⟩
          unfold OriginSession.makeRoom
          split <;> rfl
        · cases found
      · simp only [OriginSession.attempt] at found ⊢
        split at found
        · cases found
        · next taken =>
          rw [if_neg taken]
          exact known.parseRejected name sql
    | bind portal statement parameters formats accepted =>
      refine attempted calm runs rfl (fun _ _ => rfl) (fun found => ?_) fun found => ?_
      · simp only [OriginSession.attempt] at found ⊢
        split at found
        · cases found
        · next sql there =>
          split at found
          · next free =>
            rw [if_pos free]
            exact ⟨known.bind portal statement parameters there, rfl⟩
          · cases found
      · have rejected : Known (watch.bind portal statement parameters true) origin :=
          known.skipped (.bind portal statement parameters formats accepted)
        simp only [OriginSession.attempt] at found ⊢
        split at found
        · exact rejected
        · split at found
          · cases found
          · next taken =>
            rw [if_neg taken]
            exact rejected
    | describe target name =>
      cases target <;>
      exact attempted calm runs rfl (fun _ _ => rfl) (fun _ => ⟨known, rfl⟩) fun _ => known
    | execute portal ok =>
      refine attempted calm runs rfl (fun _ _ => rfl) (fun found => ?_) fun found => ?_
      · simp only [OriginSession.attempt, OriginSession.outcome] at found ⊢
        split at found
        · cases found
        · next sql parameters there =>
          cases ok with
          | false => cases found
          | true =>
            rw [there]
            exact ⟨known.apply (effect sql), skipping_apply origin _⟩
      · simp only [OriginSession.attempt, OriginSession.outcome] at found ⊢
        split at found
        · next there =>
          rw [there]
          cases ok <;> exact known
        · next sql parameters there =>
          cases ok with
          | false => exact known
          | true => cases found
    | close target name =>
      cases target with
      | statement =>
        refine attempted calm runs rfl (fun _ _ => rfl) (fun _ => ⟨?_, rfl⟩) nofun
        have skipped := known.skipped (.close .statement name)
        refine ⟨fun other sql told => ?_, skipped.portals⟩
        obtain ⟨differs, -⟩ := of_update_text told nofun
        exact (update_of_ne differs _ _).trans (skipped.texts other sql told)
      | portal =>
        exact attempted calm runs rfl (fun _ _ => rfl) (fun _ => ⟨known.forgetPortal name
          (fun other differs => update_of_ne differs _ _) rfl, rfl⟩) nofun
    | query effects ok =>
      rw [step_awake effect runs]
      exact live.query effect calm effects ok
    | sync =>
      have block : (origin.outcome effect .sync).inBlock = origin.finish.inBlock :=
        congrArg OriginSession.inBlock (step_awake effect runs .sync)
      rw [step_awake effect runs]
      simp only [Watch.heard, Watch.answered, block]
      refine known.finish.awake ?_ ((finish_skipping origin).trans runs)
      split <;> exact calm
    | readyForQuery inTransaction =>
      exact attempted calm runs rfl (fun _ _ => rfl)
        (fun _ => ⟨known.skipped (.readyForQuery inTransaction), rfl⟩) nofun
    | flush | parameterDescription | parseComplete =>
      exact attempted calm runs rfl (fun _ _ => rfl) (fun _ => ⟨known, rfl⟩) nofun

def EntriesTrue (tables : Tables Q V) : Prop :=
  ∀ buffer, tables.buffer = some buffer → ∀ entry ∈ buffer.entries, ∀ candidate,
    entry.candidate = some candidate →
      entry.atOrigin = some (candidate.cacheableQuery, candidate.parameters)

theorem EntriesTrue.getOrCreate (true_ : EntriesTrue tables) :
    ∀ entry ∈ tables.bufferGetOrCreate.entries, ∀ candidate, entry.candidate = some candidate →
      entry.atOrigin = some (candidate.cacheableQuery, candidate.parameters) := by
  unfold Tables.bufferGetOrCreate
  cases there : tables.buffer with
  | none => exact fun _ within => nomatch within
  | some buffer => exact true_ buffer there

theorem EntriesTrue.buffered (true_ : EntriesTrue tables) (change : Segment → Segment) :
    EntriesTrue (tables.buffered change) := by
  intro buffer there
  cases there
  exact true_.getOrCreate

theorem EntriesTrue.execute {portal : String} (true_ : EntriesTrue tables)
    (stored : Stored watch tables) (live : Live watch origin)
    (untouched : (tables.executeCacheCandidate portal tables.pendingDescribe).isSome = true →
      (watch.portals portal).isSome = true) :
    EntriesTrue (tables.handleExecuteMessage portal (origin.running portal)) := by
  intro buffer there entry within candidate found
  cases there
  rcases List.mem_append.mp within with within | within
  · exact true_.getOrCreate entry within candidate found
  obtain rfl := List.mem_singleton.mp within
  change tables.executeCacheCandidate portal tables.pendingDescribe = some candidate at found
  obtain ⟨bound, told⟩ := isSome_iff_exists.mp (untouched (by rw [found]; rfl))
  obtain ⟨held, stmt, bind, statement, query, values⟩ := of_executeCacheCandidate found
  obtain ⟨text, portal', there, named, parameters⟩ := stored.portals portal bound told
  obtain rfl := some_inj.mp (there.symm.trans bind)
  have awake : origin.skipping = false := by
    rw [← live.failed, Bool.eq_false_iff]
    exact fun failed => absurd ((live.quiet failed portal).symm.trans told) nofun
  have running : origin.running portal = some bound.2 :=
    (if_neg (awake ▸ Bool.false_ne_true)).trans (live.portals portal bound told)
  have same : stmt.sql = bound.2.1 := by
    rw [← named, Tables.text, statement] at text
    exact some_inj.mp text
  change origin.running portal = some (candidate.cacheableQuery, candidate.parameters)
  rw [running, query, values, same, parameters]

structure Mirrors (session : Session Q V) : Prop where
  stored : Stored session.watch session.tables
  live : Live session.watch session.origin
  entries : EntriesTrue session.tables

theorem Mirrors.step {analyze : Q → StatementType} {effect : Q → SessionEffect Q V}
    {session next : Session Q V} {msg : Message Q V} (mirrors : Mirrors session)
    (untouched : Untouched session msg) (stepped : session.step analyze effect msg = some next) :
    Mirrors next := by
  cases stepped
  obtain ⟨stored, live, entries⟩ := mirrors
  refine ⟨?_, live.step msg, ?_⟩
  · unfold Watch.step
    split
    · split
      · exact ⟨stored.unused, stored.texts, stored.portals⟩
      · exact stored.heard analyze msg true
    · exact (stored.heard analyze msg _).weaker (weaker_answered _ msg _)
  · cases msg with
    | parse name sql oids =>
      have stored : EntriesTrue (session.tables.statementStore name
        ⟨sql, oids, analyze sql, false, false⟩) := entries
      exact stored.buffered _
    | bind portal statement parameters formats =>
      have stored : EntriesTrue
        (session.tables.portalStore portal statement parameters formats) := entries
      exact stored.buffered _
    | describe => exact entries.buffered _
    | execute portal ok => exact entries.execute stored live untouched
    | close target => cases target <;> exact nofun
    | sync | flush => exact nofun
    | query | parameterDescription | parseComplete => exact entries
    | readyForQuery inTransaction => cases inTransaction <;> exact entries

end Invariant

/-- In every run in which the executes are of portals that nothing has touched since their Bind, a
batch that a Sync would answer from the cache now uses, for each Execute, the text and the values
origin's portal had at that Execute. -/
theorem served_execute_mirrors_origin (analyze : Q → StatementType)
    (effect : Q → SessionEffect Q V) {messages : List (Message Q V)} {last : Session Q V}
    {buffer : ExtendedBuffer Q V} {possible : Bool}
    (untouched : Allowed (Session.step analyze effect) Untouched .new messages)
    (ran : runs (Session.step analyze effect) .new messages = some last)
    (there : last.tables.buffer = some buffer)
    (served : cacheBatchEligible possible buffer = true) :
    ∀ entry ∈ buffer.entries, ∃ candidate, entry.candidate = some candidate ∧
      entry.atOrigin = some (candidate.cacheableQuery, candidate.parameters) := by
  have start : Mirrors (.new : Session Q V) :=
    ⟨⟨fun _ _ => rfl, nofun, nofun⟩, ⟨⟨nofun, nofun⟩, rfl, nofun⟩, nofun⟩
  have mirrors : Mirrors last :=
    runs_invariant (fun _ _ _ holds untouched stepped => holds.step untouched stepped) start
      untouched ran
  intro entry within
  simp only [cacheBatchEligible, Bool.and_eq_true, List.all_eq_true] at served
  obtain ⟨candidate, found⟩ := isSome_iff_exists.mp (served.1.2 entry within).2
  exact ⟨candidate, found, mirrors.entries buffer there entry within candidate found⟩

abbrev Trace := List (Message Nat Nat)

def traceStep : Session Nat Nat → Message Nat Nat → Option (Session Nat Nat) :=
  Session.step (fun _ => .cacheable) fun _ => .none

def preparedTrace : Trace :=
  [.parse "s" 1 [] true, .sync, .query [] true, .bind "" "s" 7 .implicit true, .execute "" true,
    .sync, .query [.begins] true, .bind "p" "s" 8 .implicit true, .execute "p" true, .sync,
    .readyForQuery true, .execute "p" true]

theorem named_statement_mirrored : ∃ last buffer, runs traceStep .new preparedTrace = some last ∧
      last.tables.buffer = some buffer ∧ cacheBatchEligible true buffer = true ∧
      ∀ entry ∈ buffer.entries, ∃ candidate, entry.candidate = some candidate ∧
        entry.atOrigin = some (candidate.cacheableQuery, candidate.parameters) := by
  have untouched : Allowed traceStep Untouched .new preparedTrace := by
    refine .cons rfl trivial <| .cons rfl trivial <| .cons rfl trivial <| .cons rfl trivial <|
      .cons rfl (fun _ => rfl) <| .cons rfl trivial <| .cons rfl trivial <| .cons rfl trivial <|
      .cons rfl (fun _ => rfl) <| .cons rfl trivial <| .cons rfl trivial <|
      .cons rfl (fun _ => rfl) trivial
  have reached : (runs traceStep .new preparedTrace).any fun last =>
      last.tables.buffer.any (cacheBatchEligible true) := by
    decide +kernel
  obtain ⟨last, ran, buffered⟩ := (any_eq_true _ _).mp reached
  obtain ⟨buffer, there, served⟩ := (any_eq_true _ _).mp buffered
  exact ⟨last, buffer, ran, there, served,
    served_execute_mirrors_origin (fun _ => .cacheable) (fun _ => .none) untouched ran there served⟩

/-- Runs that end in a batch a Sync would answer from the cache. -/
def staleRuns : List Trace :=
  -- a name is used again after DEALLOCATE
  [[.parse "s" 1 [] true, .sync, .query [.deallocate "s"] true, .parse "s" 2 [] true,
      .bind "" "s" 7 .implicit true, .execute "" true],
    -- after a Parse that origin rejected
    [.parse "s" 1 [] false, .sync, .parse "s" 2 [] true, .bind "" "s" 7 .implicit true,
      .execute "" true],
    -- and after one that it skipped, behind an error in the group
    [.bind "" "missing" 7 .implicit true, .parse "s" 1 [] true, .sync, .parse "s" 2 [] true,
      .bind "" "s" 7 .implicit true, .execute "" true],
    -- the portal went with its transaction, the named one and the unnamed one of a cached batch
    [.parse "s" 1 [] true, .bind "p" "s" 7 .implicit true, .execute "p" true, .sync,
      .readyForQuery false, .execute "p" true],
    [.parse "s" 1 [] true, .bind "" "s" 7 .implicit true, .execute "" true, .sync,
      .execute "" true],
    -- ROLLBACK
    [.query [.begins] true, .parse "s" 1 [] true, .bind "p" "s" 7 .implicit true, .sync,
      .query [.ends] true, .readyForQuery false, .execute "p" true],
    -- the statement of an open portal gets another text
    [.query [.begins] true, .parse "" 1 [] true, .bind "p" "" 7 .implicit true, .sync,
      .parse "" 2 [] true, .sync, .execute "p" true],
    -- a simple query drops the unnamed statement
    [.parse "" 1 [] true, .sync, .query [] true, .bind "" "" 7 .implicit true, .execute "" true],
    -- the Parse before a Flush was rejected, so origin skips the Execute
    [.parse "s" 1 [] false, .flush, .bind "" "s" 7 .implicit true, .execute "" true],
    -- a named portal that is open cannot be bound again
    [.query [.begins] true, .parse "s" 1 [] true, .bind "p" "s" 7 .implicit true, .sync,
      .bind "p" "s" 8 .implicit true, .execute "p" true]]

theorem stale_execute_served : staleRuns ≠ [] ∧
    ∀ messages ∈ staleRuns, ∃ last buffer, runs traceStep .new messages = some last ∧
      last.tables.buffer = some buffer ∧ cacheBatchEligible true buffer = true ∧
      ∃ entry ∈ buffer.entries, ∃ candidate, entry.candidate = some candidate ∧
        entry.atOrigin ≠ some (candidate.cacheableQuery, candidate.parameters) := by
  have reached : ∀ messages ∈ staleRuns, (runs traceStep .new messages).any fun last =>
      last.tables.buffer.any fun buffer => cacheBatchEligible true buffer &&
        buffer.entries.any fun entry => entry.candidate.any fun candidate =>
          entry.atOrigin ≠ some (candidate.cacheableQuery, candidate.parameters) := by
    decide +kernel
  refine ⟨List.cons_ne_nil _ _, fun messages among => ?_⟩
  obtain ⟨last, ran, found⟩ := (any_eq_true _ _).mp (reached messages among)
  obtain ⟨buffer, there, found⟩ := (any_eq_true _ _).mp found
  obtain ⟨served, found⟩ := Bool.and_eq_true_iff.mp found
  obtain ⟨entry, within, found⟩ := List.any_eq_true.mp found
  obtain ⟨candidate, taken, differs⟩ := (any_eq_true _ _).mp found
  exact ⟨last, buffer, ran, there, served, entry, within, candidate, taken,
    of_decide_eq_true differs⟩

end PgCache.Proxy.Mirror
