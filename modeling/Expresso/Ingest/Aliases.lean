import Expresso.Ingest.Recipients
import Expresso.Transition.Runs
import Expresso.Tree.Ways

/-! Following the aliases of an address: where a message ends up, and when the relay gets a message
that it should not get. -/

namespace Expresso.Ingest
open Text Transition Tree

section
variable (cfg : Config) (dir : Directory)

/-- The users that an address belongs to. -/
def owners (addr : Str) : List User :=
  dir.users.filter fun user => cfg.lower user.email = addr

/-- The only alias of an address that is enabled points to the other one. -/
def Redirects (addr next : Str) : Prop := lookupAliasTarget cfg dir addr = .target next

/-- A step of the loop: the lookup finds no single user, and an alias. -/
def Passes (addr next : Str) : Prop :=
  lookupLocalUser cfg dir addr = none ∧ Redirects cfg dir addr next

/-- Following the aliases of a recipient, with at most so many lookups and without an address
that comes twice. -/
def Reaches (rcpt addr : Str) : Prop := Leads (Redirects cfg dir) maxAliasHops [] rcpt addr

/-- What the loop makes of an address that it does not go on from. -/
def outcomeAt (relay : Str → Bool) (rcpt raw addr : Str) : Resolution :=
  match lookupLocalUser cfg dir addr with
  | some user => .onServer user
  | none =>
      if lookupAliasTarget cfg dir addr = .none ∧ addr ≠ rcpt
      then relayOffPlatform cfg relay addr raw else .drop

end

section
variable {cfg : Config} {dir : Directory} {fails : Statement → Bool} {relay : Str → Bool}
  {rcpt raw addr : Str} {user : User} {resolution : Resolution}

theorem lookupLocalUser_eq_some_iff :
    lookupLocalUser cfg dir addr = some user ↔ owners cfg dir addr = [user] := by
  unfold lookupLocalUser owners
  generalize (dir.users.filter fun user => cfg.lower user.email = addr) = found
  rcases found with _ | ⟨first, _ | ⟨second, rest⟩⟩ <;> simp

theorem lookupLocalUser_eq_none_iff :
    lookupLocalUser cfg dir addr = none ↔
      owners cfg dir addr = [] ∨ 2 ≤ (owners cfg dir addr).length := by
  unfold lookupLocalUser owners
  generalize (dir.users.filter fun user => cfg.lower user.email = addr) = found
  rcases found with _ | ⟨first, _ | ⟨second, rest⟩⟩ <;> simp

theorem redirects_single (addr next next' : Str) (redirects : Redirects cfg dir addr next)
    (redirects' : Redirects cfg dir addr next') : next = next' :=
  AliasLookup.target.inj (redirects.symm.trans redirects')

theorem relayOffPlatform_eq_relayed_iff :
    relayOffPlatform cfg relay addr raw = .relayed ↔
      trim cfg.relayHost ≠ [] ∧ relayForward relay addr raw = true := by
  unfold relayOffPlatform
  by_cases unset : trim cfg.relayHost = []
  · simp [unset]
  · simp [unset]

theorem relayOffPlatform_not_onServer : relayOffPlatform cfg relay addr raw ≠ .onServer user := by
  unfold relayOffPlatform
  split
  · simp
  · split <;> simp

/-- Other than by dropping, the loop ends with what it makes of an address that it can come to.
The induction is on the hops that are left; every address seen has been passed. -/
theorem resolveFrom_iff (kept : resolution ≠ .drop) (hops : Nat) (addr : Str) (visited : List Str)
    (passed : ∀ seen ∈ visited, ∃ next, Passes cfg dir seen next) {result : Resolution}
    (done : resolveFrom cfg dir fails relay rcpt raw hops addr visited = .ok result) :
    result = resolution ↔ ∃ last, Leads (Passes cfg dir) hops visited addr last ∧
      outcomeAt cfg dir relay rcpt raw last = resolution := by
  induction hops generalizing addr visited with
  | zero =>
    cases done
    simp [not_leads_zero, kept.symm]
  | succ hops ih =>
    simp only [resolveFrom, bind_eq_ok_iff] at done
    obtain ⟨_, -, done⟩ := done
    have stops (dead : ∀ next, ¬Passes cfg dir addr next) (last : Str) :
        Leads (Passes cfg dir) (hops + 1) visited addr last ↔ addr = last := by
      have fresh : addr ∉ visited := fun known => (passed addr known).elim dead
      simp [leads_succ_iff, fresh, dead]
    cases lookup : lookupLocalUser cfg dir addr with
    | some user =>
      rw [lookup] at done
      cases done
      have dead (next : Str) : ¬Passes cfg dir addr next := by simp [Passes, lookup]
      simp [stops dead, outcomeAt, lookup]
    | none =>
      simp only [lookup, bind_eq_ok_iff] at done
      obtain ⟨_, -, done⟩ := done
      cases target : lookupAliasTarget cfg dir addr with
      | target next =>
        have passes (c : Str) : Passes cfg dir addr c ↔ c = next := by
          simp [Passes, lookup, Redirects, target, eq_comm]
        have nothing : outcomeAt cfg dir relay rcpt raw addr = .drop := by
          simp [outcomeAt, lookup, target]
        simp only [target] at done
        by_cases known : addr ∈ visited
        · rw [if_pos known] at done
          cases done
          simp [leads_succ_iff, known, kept.symm]
        · rw [if_neg known] at done
          have passed' : ∀ seen ∈ addr :: visited, ∃ next, Passes cfg dir seen next := by
            rw [List.forall_mem_cons]
            exact ⟨⟨next, (passes next).mpr rfl⟩, passed⟩
          rw [ih next (addr :: visited) passed' done]
          simp only [leads_succ_iff, known, not_false_eq_true, true_and, passes, exists_eq_left]
          apply exists_congr
          intro last
          apply and_congr_left
          intro ends
          refine ⟨.inr, fun way => way.resolve_left ?_⟩
          intro same
          rw [← same, nothing] at ends
          exact kept ends.symm
      | ambiguous =>
        simp only [target] at done
        cases done
        have dead (next : Str) : ¬Passes cfg dir addr next := by simp [Passes, Redirects, target]
        simp [stops dead, outcomeAt, lookup, target]
      | none =>
        simp only [target] at done
        have dead (next : Str) : ¬Passes cfg dir addr next := by simp [Passes, Redirects, target]
        have here : outcomeAt cfg dir relay rcpt raw addr =
            if addr = rcpt then .drop else relayOffPlatform cfg relay addr raw := by
          simp [outcomeAt, lookup, target, ite_not]
        simp only [stops dead, exists_eq_left', here]
        split at done
        next unknown =>
          cases done
          rw [if_pos unknown]
        next other =>
          cases done
          rw [if_neg other]

/-! ### What the resolution says -/

/-- Delivery to a user follows from coming to an address of that user alone, the relay gets
messages only for addresses that nobody has, and all others are dropped. -/
structure Resolves (cfg : Config) (dir : Directory) (rcpt : Str) (resolution : Resolution) :
    Prop where
  onServer : (∃ user, resolution = .onServer user) ↔
    ∃ addr user, Reaches cfg dir rcpt addr ∧ owners cfg dir addr = [user]
  toOwner : ∀ user, resolution = .onServer user →
    ∃ addr, Reaches cfg dir rcpt addr ∧ owners cfg dir addr = [user]
  relayed : resolution = .relayed → ∃ addr, Reaches cfg dir rcpt addr ∧ addr ≠ rcpt ∧
    owners cfg dir addr = [] ∧ lookupAliasTarget cfg dir addr = .none
  dropped : (¬∃ addr user, Reaches cfg dir rcpt addr ∧ owners cfg dir addr = [user]) →
    (¬∃ addr, Reaches cfg dir rcpt addr ∧ addr ≠ rcpt ∧
      owners cfg dir addr = [] ∧ lookupAliasTarget cfg dir addr = .none) →
    resolution = .drop

/-- The relay takes the message, and the aliases of the recipient end at an address that several
users have, with no address of a single user before it. -/
def SharedEnd (cfg : Config) (dir : Directory) (relay : Str → Bool) (rcpt raw : Str) : Prop :=
  ∃ addr, Leads (Passes cfg dir) maxAliasHops [] rcpt addr ∧ addr ≠ rcpt ∧
    2 ≤ (owners cfg dir addr).length ∧ lookupAliasTarget cfg dir addr = .none ∧
    trim cfg.relayHost ≠ [] ∧ relayForward relay addr raw = true

theorem Reaches.of_passes (way : Leads (Passes cfg dir) maxAliasHops [] rcpt addr) :
    Reaches cfg dir rcpt addr := way.mono fun _ _ passes => passes.2

theorem reaches_owner_iff :
    (∃ addr user, Reaches cfg dir rcpt addr ∧ owners cfg dir addr = [user]) ↔
      ∃ addr user, Leads (Passes cfg dir) maxAliasHops [] rcpt addr ∧
        owners cfg dir addr = [user] := by
  constructor
  · intro ⟨addr, user, way, owned⟩
    obtain ⟨first, ⟨owner, owned⟩, way⟩ :=
      way.first (fun addr => ∃ user, owners cfg dir addr = [user]) ⟨user, owned⟩
    refine ⟨first, owner, way.mono fun a b step => ⟨?_, step.2⟩, owned⟩
    rw [Option.eq_none_iff_forall_ne_some]
    intro single found
    exact step.1 ⟨single, lookupLocalUser_eq_some_iff.mp found⟩
  · intro ⟨addr, user, way, owned⟩
    exact ⟨addr, user, .of_passes way, owned⟩

theorem outcomeAt_eq_onServer_iff :
    outcomeAt cfg dir relay rcpt raw addr = .onServer user ↔ owners cfg dir addr = [user] := by
  rw [← lookupLocalUser_eq_some_iff, outcomeAt]
  cases lookupLocalUser cfg dir addr with
  | some single => simp
  | none =>
    by_cases goes : lookupAliasTarget cfg dir addr = .none ∧ addr ≠ rcpt
    · simp [goes, relayOffPlatform_not_onServer]
    · simp [goes]

theorem outcomeAt_eq_relayed_iff :
    outcomeAt cfg dir relay rcpt raw addr = .relayed ↔
      (owners cfg dir addr = [] ∨ 2 ≤ (owners cfg dir addr).length) ∧
        lookupAliasTarget cfg dir addr = .none ∧ addr ≠ rcpt ∧
        trim cfg.relayHost ≠ [] ∧ relayForward relay addr raw = true := by
  rw [← lookupLocalUser_eq_none_iff, ← relayOffPlatform_eq_relayed_iff, outcomeAt]
  cases lookupLocalUser cfg dir addr with
  | some single => simp
  | none =>
    by_cases goes : lookupAliasTarget cfg dir addr = .none ∧ addr ≠ rcpt
    · simp [goes]
    · simp only [goes, if_false, true_and, reduceCtorEq, false_iff]
      exact fun ends => goes ⟨ends.1, ends.2.1⟩

section
variable (done : resolveRecipient cfg dir fails relay rcpt raw = .ok resolution)
include done

theorem resolveRecipient_onServer_iff :
    resolution = .onServer user ↔ ∃ addr, Leads (Passes cfg dir) maxAliasHops [] rcpt addr ∧
      owners cfg dir addr = [user] := by
  have kept : Resolution.onServer user ≠ .drop := by simp
  rw [resolveFrom_iff kept _ _ _ (by simp) done]
  simp only [outcomeAt_eq_onServer_iff]

theorem resolveRecipient_relayed_iff :
    resolution = .relayed ↔ ∃ addr, Leads (Passes cfg dir) maxAliasHops [] rcpt addr ∧
      (owners cfg dir addr = [] ∨ 2 ≤ (owners cfg dir addr).length) ∧
        lookupAliasTarget cfg dir addr = .none ∧ addr ≠ rcpt ∧
        trim cfg.relayHost ≠ [] ∧ relayForward relay addr raw = true := by
  have kept : Resolution.relayed ≠ .drop := by simp
  rw [resolveFrom_iff kept _ _ _ (by simp) done]
  simp only [outcomeAt_eq_relayed_iff]

theorem SharedEnd.not_resolves (shared : SharedEnd cfg dir relay rcpt raw) :
    ¬Resolves cfg dir rcpt resolution := by
  intro resolves
  obtain ⟨addr, way, other, shared, final, sent⟩ := shared
  have relayed : resolution = .relayed :=
    (resolveRecipient_relayed_iff done).mpr ⟨addr, way, .inr shared, final, other, sent⟩
  obtain ⟨last, way', -, unowned, final'⟩ := resolves.relayed relayed
  have same : addr = last := by
    apply (Reaches.of_passes way).ends_unique redirects_single ?_ way' ?_
    · intro d redirects
      simp [Redirects, final] at redirects
    · intro d redirects
      simp [Redirects, final'] at redirects
  rw [same, unowned] at shared
  exact absurd shared (by decide)

theorem resolveRecipient_resolves_iff :
    Resolves cfg dir rcpt resolution ↔ ¬SharedEnd cfg dir relay rcpt raw := by
  have onServer_iff : (∃ user, resolution = .onServer user) ↔
      ∃ addr user, Reaches cfg dir rcpt addr ∧ owners cfg dir addr = [user] := by
    rw [reaches_owner_iff]
    simp only [resolveRecipient_onServer_iff done]
    exact exists_comm
  refine ⟨fun resolves shared => shared.not_resolves done resolves, fun kept => ?_⟩
  have relayed : resolution = .relayed → ∃ addr, Reaches cfg dir rcpt addr ∧ addr ≠ rcpt ∧
      owners cfg dir addr = [] ∧ lookupAliasTarget cfg dir addr = .none := by
    intro sent
    obtain ⟨addr, way, owned, final, other, asked⟩ :=
      (resolveRecipient_relayed_iff done).mp sent
    have unowned := owned.resolve_right fun shared =>
      kept ⟨addr, way, other, shared, final, asked⟩
    exact ⟨addr, .of_passes way, other, unowned, final⟩
  refine ⟨onServer_iff, ?_, relayed, ?_⟩
  · intro user found
    obtain ⟨addr, way, owned⟩ := (resolveRecipient_onServer_iff done).mp found
    exact ⟨addr, .of_passes way, owned⟩
  · intro unowned unknown
    cases resolution with
    | onServer user => exact absurd (onServer_iff.mp ⟨user, rfl⟩) unowned
    | relayed => exact absurd (relayed rfl) unknown
    | drop => rfl

end

end

/-! ### Two tenants with one address -/

/-- An alias of the first tenant points to an address that both tenants have. -/
def sharedDirectory : Directory where
  users := [⟨7, 1, "info@x.org".toList, none⟩, ⟨8, 2, "info@x.org".toList, none⟩]
  aliases := [⟨1, "sales@x.org".toList, "info@x.org".toList, true⟩]

def relayConfig : Config :=
  ⟨"smart".toList, [], toAsciiLowercase, ⟨fun _ => none, fun _ => none⟩⟩

theorem sharedDirectory_relayed :
    resolveRecipient relayConfig sharedDirectory (fun _ => false) (fun _ => true)
      "sales@x.org".toList "Subject: a".toList = .ok .relayed := by
  decide

theorem resolveRecipient_relays_shared :
    resolveRecipient relayConfig sharedDirectory (fun _ => false) (fun _ => true)
        "sales@x.org".toList "Subject: a".toList = .ok .relayed ∧
      ¬Resolves relayConfig sharedDirectory "sales@x.org".toList .relayed := by
  refine ⟨sharedDirectory_relayed, SharedEnd.not_resolves sharedDirectory_relayed ?_⟩
  have passes : Passes relayConfig sharedDirectory "sales@x.org".toList "info@x.org".toList :=
    ⟨by decide, show lookupAliasTarget _ _ _ = _ by decide⟩
  exact ⟨"info@x.org".toList, (leads_self (by simp)).cons (by simp) passes, by decide, by decide,
    by decide, by decide, by decide⟩

/-- The alias of a single user. -/
theorem resolveRecipient_resolves_alias :
    Resolves relayConfig { sharedDirectory with users := [⟨7, 1, "info@x.org".toList, none⟩] }
        "sales@x.org".toList (.onServer ⟨7, 1, "info@x.org".toList, none⟩) ↔
      ¬SharedEnd relayConfig
        { sharedDirectory with users := [⟨7, 1, "info@x.org".toList, none⟩] } (fun _ => true)
        "sales@x.org".toList [] :=
  @resolveRecipient_resolves_iff _ _ (fun _ => false) _ _ _ _ (by decide)

end Expresso.Ingest
