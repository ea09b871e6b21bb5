/-
  What a check answers after a change.
-/

import Rustlavel.Lib.RelyGuarantee
import Rustlavel.Rbac.Store

namespace Rustlavel.Rbac

open Transact Nat
open Transact.Prog (SafeOk)

/-! ## What is kept -/

structure World.Later (d d' : World) : Prop where
  tables : d.tables.Later d'.tables
  cleared : ∀ user, d.cache.cleared user ≤ d'.cache.cleared user

theorem World.later_refl (d : World) : d.Later d := ⟨d.tables.later_refl, fun _ => le_refl _⟩

theorem World.Later.trans {d d' d'' : World} (h : d.Later d') (h' : d'.Later d'') : d.Later d'' :=
  ⟨h.tables.trans h'.tables, fun user => (h.cleared user).trans (h'.cleared user)⟩

/-- When grants are put in, their user's entry has not been dropped after a change that they were read before. -/
def Clear (_ : Request) : Point → World → Prop
  | .insert user asOf, d => d.cache.cleared user ≤ asOf
  | _, _ => True

instance (x : Request) (l : Point) (d : World) : Decidable (Clear x l d) := by
  cases l <;> unfold Clear <;> infer_instance

namespace Permissions

variable (P : Permissions)

/-- The grants were put together from what three statements read, the first of them after `asOf` writes. -/
def ReadFrom (v : Versions Tables) (user : Int) (grants : Grants) (asOf : Nat) : Prop :=
  ∃ asOf1 asOf2 t t1 t2, v.asOf asOf = some t ∧ asOf ≤ asOf1 ∧ v.asOf asOf1 = some t1 ∧
    asOf1 ≤ asOf2 ∧ v.asOf asOf2 = some t2 ∧
    grants = P.resolve (t.rolesOf user) (t1.permissionNames ((t.rolesOf user).map (·.id))) (t2.directPermissions user)

variable {P : Permissions} {x : Request} {d d' : World} {user : Int} {grants : Grants} {asOf wrote : Nat}

theorem ReadFrom.later {v v' : Versions Tables} (h : P.ReadFrom v user grants asOf) (hv : v.Later v') :
    P.ReadFrom v' user grants asOf := by
  obtain ⟨asOf1, asOf2, t, t1, t2, ht, hle1, ht1, hle2, ht2, hgrants⟩ := h
  exact ⟨asOf1, asOf2, t, t1, t2, hv.asOf ht, hle1, hv.asOf ht1, hle2, hv.asOf ht2, hgrants⟩

def Sound (d : World) : Prop := d.cache.Fresh (fun user entry => P.ReadFrom d.tables user entry.grants) d.tables.clock

def contract : Contract Request Point World where
  inv _ := P.Sound
  step _ _ := World.Later
  rely := World.Later
  inv_mono _ h := h
  step_refl _ _ := World.later_refl
  rely_refl := World.later_refl
  rely_trans := World.Later.trans
  rely_of_step _ h := h

/-! ## Statements -/

section

variable {α : Type} {l : Point}

theorem perform_safe {body : ExceptT String (Tx World Write) α} {post : α → World → Prop}
    (h : ∀ n d', d.Later d' → P.Sound d' → Tx.Ends body n d' fun a _ d'' => P.Sound d'' ∧ d'.Later d'' ∧ post a d'')
    (hstable : ∀ {a d' d''}, post a d' → d'.Later d'' → post a d'') :
    SafeOk P.contract Clear x post (x.perform l body) d := by
  refine .statement (fun n d' hrely hinv _ => ?_) fun a d' n d'' ha hrely _ => hstable ha hrely
  cases x.fault l with
  | some => exact .throw
  | none => exact h n d' hrely hinv

theorem select_safe (f : Tables → α) : SafeOk P.contract Clear x
      (fun a d' => ∃ n t, d.tables.clock ≤ n ∧ d'.tables.asOf n = some t ∧ a = f t) (x.select l f) d := by
  refine perform_safe (fun n d' hd hsound => .query ⟨hsound, d'.later_refl, ?_⟩) ?_
  · exact ⟨d'.tables.clock, d'.tables.current, hd.tables.clock, d'.tables.asOf_clock, rfl⟩
  · rintro a d' d'' ⟨n, t, hn, ht, ha⟩ hd
    exact ⟨n, t, hn, hd.tables.asOf ht, ha⟩

theorem select_any (f : Tables → α) : SafeOk P.contract Clear x (fun _ _ => True) (x.select l f) d :=
  Prog.Safe.weaken (select_safe f) fun _ _ _ _ _ => trivial

theorem Sound.write (h : P.Sound d) (t : Tables) : P.Sound { d with tables := d.tables.write t } :=
  Slots.Fresh.later h (d.tables.later_write t).clock fun hread => hread.later (d.tables.later_write t)

theorem edit_safe (e : Edit) : SafeOk P.contract Clear x (fun r d' => r.2 ≤ d'.tables.clock) (x.edit e) d := by
  refine perform_safe (fun n d' _ hsound => ?_) fun ha hd => ha.trans hd.tables.clock
  refine .bind (.query ?_)
  cases e.run d'.tables.current with
  | error => exact .throw
  | ok r =>
    refine .bind (.tryUpdate (fun w hw => ?_) nofun)
    cases hw
    refine .bind (.query (.pure ⟨hsound.write r.1, ?_, le_refl _⟩))
    exact ⟨d'.tables.later_write r.1, fun _ => le_refl _⟩

theorem access_safe {w : Write} {post : World → Prop} (h : ∀ d', d.Later d' → P.Sound d' → Clear x l d' →
      P.Sound (Store.apply w d') ∧ d'.Later (Store.apply w d') ∧ post (Store.apply w d'))
    (hstable : ∀ {d' d''}, post d' → d'.Later d'' → post d'') :
    SafeOk P.contract Clear x (fun _ => post) (access l w) d := by
  refine .statement (fun n d' hd hsound hclear => .tryUpdate (fun w' hw => ?_) nofun)
    fun _ d' _ d'' hpost hd _ => hstable hpost hd
  cases hw
  exact h d' hd hsound hclear

theorem requireNamed_safe (kind : Kind) (name : String) :
    SafeOk P.contract Clear x (fun _ _ => True) (x.requireNamed kind name) d := by
  refine .bind (select_any _) fun found d' _ => ?_
  cases found with
  | none => exact .throw
  | some => exact .pure fun _ _ _ _ => trivial

theorem idOf_safe (kind : Kind) (name : String) : SafeOk P.contract Clear x (fun _ _ => True) (x.idOf kind name) d :=
  .bind (requireNamed_safe kind name) fun _ _ _ => .pure fun _ _ _ _ => trivial

end

/-! ## Changes -/

def Dropped (who : Option Int) (wrote : Nat) (d : World) : Prop :=
  ∀ user, dropped who user = true → wrote ≤ d.cache.cleared user

theorem Dropped.later {who : Option Int} (h : Dropped who wrote d) (hd : d.Later d') : Dropped who wrote d' :=
  fun user huser => (h user huser).trans (hd.cleared user)

section

variable {who : Option Int}

theorem dropEntries_safe (who : Option Int) (hwrote : wrote ≤ d.tables.clock) :
    SafeOk P.contract Clear x (Dropped who) (dropEntries who wrote) d := by
  have hdrop : SafeOk P.contract Clear x (fun _ => Dropped who wrote) (access .drop (.drop who wrote)) d := by
    refine access_safe (fun d' hd hsound _ => ⟨?_, ?_, fun user huser => ?_⟩) Dropped.later
    · exact Slots.Fresh.drop hsound _ (hwrote.trans hd.tables.clock)
    · exact ⟨d'.tables.later_refl, d'.cache.le_cleared_drop _ wrote⟩
    · exact d'.cache.wrote_le_cleared_drop wrote huser
  exact .bind hdrop fun _ d' h => .pure fun _ d'' hd _ => h.later hd

theorem edit_drop_safe (e : Edit) :
    SafeOk P.contract Clear x (Dropped who) (do let r ← x.edit e; dropEntries who r.2) d :=
  .bind (edit_safe e) fun _ _ hwrote => dropEntries_safe who hwrote

theorem insertUnless_safe (already : Bool) (e : Edit) :
    SafeOk P.contract Clear x (Dropped who) (x.insertUnless already e who) d := by
  unfold Request.insertUnless
  split
  · exact dropEntries_safe who (zero_le _)
  · exact edit_drop_safe e

variable (kind : Kind) (role permission : String) (name : String)

theorem validate_safe : SafeOk P.contract Clear x (fun _ _ => True) (Request.validate kind name) d := by
  intro n d' _ _ a _
  trivial

theorem rename_safe (source target : String) :
    SafeOk P.contract Clear x (Dropped none) (x.rename kind source target) d := by
  refine .bind (validate_safe kind target) fun _ d1 _ => ?_
  refine .bind (requireNamed_safe kind source) fun _ d2 _ => ?_
  refine .bind (select_any _) fun found d3 _ => ?_
  cases found with
  | some => exact .throw
  | none => exact edit_drop_safe _

theorem delete_safe : SafeOk P.contract Clear x (Dropped none) (x.delete kind name) d :=
  .bind (requireNamed_safe kind name) fun _ _ _ => edit_drop_safe _

theorem create_safe (description : Option String) :
    SafeOk P.contract Clear x (fun _ _ => True) (x.create kind name description) d := by
  refine .bind (validate_safe kind name) fun _ d1 _ => ?_
  refine .bind (select_any _) fun found d2 _ => ?_
  cases found with
  | some => exact .throw
  | none => exact .bind (edit_safe _) fun _ _ _ => .pure fun _ _ _ _ => trivial

theorem attachPermission_safe : SafeOk P.contract Clear x (Dropped none) (x.attachPermission role permission) d := by
  refine .bind (idOf_safe .role role) fun roleId d1 _ => ?_
  refine .bind (idOf_safe .permission permission) fun permissionId d2 _ => ?_
  exact .bind (select_any _) fun already d3 _ => insertUnless_safe already _

theorem detachPermission_safe : SafeOk P.contract Clear x (Dropped none) (x.detachPermission role permission) d := by
  refine .bind (idOf_safe .role role) fun roleId d1 _ => ?_
  exact .bind (idOf_safe .permission permission) fun permissionId d2 _ => edit_drop_safe _

theorem each_safe {f : Nat → String → Op Nat} (names : List String)
    (hf : ∀ w name d, SafeOk P.contract Clear x (Dropped none) (f w name) d) (h : Dropped none wrote d) :
    SafeOk P.contract Clear x (Dropped none) (names.foldlM f wrote) d :=
  .foldlM (fun _ _ _ _ h hd _ => h.later hd) (fun w name d _ => hf w name d) names h

theorem setRolePermissions_safe (names : List String) :
    SafeOk P.contract Clear x (Dropped none) (x.setRolePermissions role names) d := by
  have hcurrent : SafeOk P.contract Clear x (fun _ _ => True) (x.rolePermissions role) d :=
    .bind (idOf_safe .role role) fun _ _ _ => select_any _
  refine .bind hcurrent fun current d1 _ => ?_
  refine .bind (each_safe _ (fun _ name _ => attachPermission_safe role name) fun _ _ => zero_le _)
    fun attached d2 h => ?_
  exact each_safe _ (fun _ name _ => detachPermission_safe role name) h

theorem assignRole_safe : SafeOk P.contract Clear x (Dropped (some user)) (x.assignRole user role) d := by
  refine .bind (idOf_safe .role role) fun roleId d1 _ => ?_
  exact .bind (select_any _) fun already d2 _ => insertUnless_safe already _

theorem removeRole_safe : SafeOk P.contract Clear x (Dropped (some user)) (x.removeRole user role) d :=
  .bind (idOf_safe .role role) fun _ _ _ => edit_drop_safe _

theorem setDirect_safe (granted : Bool) :
    SafeOk P.contract Clear x (Dropped (some user)) (x.setDirect user permission granted) d := by
  refine .bind (idOf_safe .permission permission) fun permissionId d1 _ => ?_
  refine .bind (edit_safe _) fun updated d2 hwrote => ?_
  split
  · exact edit_drop_safe _
  · exact dropEntries_safe _ hwrote

theorem reset_safe : SafeOk P.contract Clear x (Dropped (some user)) (x.reset user permission) d :=
  .bind (idOf_safe .permission permission) fun _ _ _ => edit_drop_safe _

theorem purgeUser_safe : SafeOk P.contract Clear x (Dropped (some user)) (x.purgeUser user) d :=
  .bind (edit_safe _) fun _ _ _ => edit_drop_safe _

end

/-! ## Checks -/

theorem permissionNames_nil (t : Tables) : t.permissionNames [] = [] := by
  simp [Tables.permissionNames, nameSet]

theorem readInherited_safe (roles : List Named) :
    SafeOk P.contract Clear x (fun inherited d' => ∃ n t, d.tables.clock ≤ n ∧ d'.tables.asOf n = some t ∧
      inherited = t.permissionNames (roles.map (·.id))) (readInherited x roles) d := by
  unfold readInherited
  split
  · rename_i hempty
    refine .pure fun _ d' hd _ => ?_
    refine ⟨d'.tables.clock, d'.tables.current, hd.tables.clock, d'.tables.asOf_clock, ?_⟩
    rw [List.isEmpty_iff.mp hempty, List.map_nil, permissionNames_nil]
  · exact select_safe _

theorem load_safe : SafeOk P.contract Clear x
    (fun r d' => d.tables.clock ≤ r.2 ∧ P.ReadFrom d'.tables user r.1 r.2) (P.load x user) d := by
  have hroles : SafeOk P.contract Clear x
      (fun r d' => d.tables.clock ≤ r.2 ∧ ∃ t, d'.tables.asOf r.2 = some t ∧ r.1 = t.rolesOf user)
      (x.perform .readRoles (Tx.query fun d => (d.tables.current.rolesOf user, d.tables.clock))) d := by
    refine perform_safe (fun n d' hd hsound => .query ⟨hsound, d'.later_refl, hd.tables.clock, ?_⟩) ?_
    · exact ⟨d'.tables.current, d'.tables.asOf_clock, rfl⟩
    · rintro r d' d'' ⟨hclock, t, ht, hr⟩ hd
      exact ⟨hclock, t, hd.tables.asOf ht, hr⟩
  refine .bind hroles fun r d1 ⟨hclock, t, ht, hr⟩ => ?_
  -- each statement reads no earlier than the one before it
  refine .bind (.stable (C := P.contract) (K := fun d => d.tables.asOf r.2 = some t)
    (fun h hd => hd.tables.asOf h) (readInherited_safe r.1) ht) fun inherited d2 ⟨⟨n1, t1, hn1, ht1, hinherited⟩,
      ht0⟩ => ?_
  refine .bind (.stable (C := P.contract) (K := fun d => d.tables.asOf r.2 = some t ∧ d.tables.asOf n1 = some t1)
    (fun h hd => ⟨hd.tables.asOf h.1, hd.tables.asOf h.2⟩) (select_safe _) ⟨ht0, ht1⟩)
    fun direct d3 ⟨⟨n2, t2, hn2, ht2, hdirect⟩, hthen⟩ => ?_
  refine .pure fun _ d4 hd _ => ⟨hclock, ReadFrom.later ?_ hd.tables⟩
  refine ⟨n1, n2, t, t1, t2, hthen.1, (d1.tables.le_clock ht).trans hn1, hthen.2,
    (d2.tables.le_clock ht1).trans hn2, ht2, ?_⟩
  rw [hinherited, hdirect, hr]

theorem keep_safe (h : P.ReadFrom d.tables user grants asOf) : SafeOk P.contract Clear x
    (fun outcome d' => outcome = .granted grants asOf ∧ P.ReadFrom d'.tables user grants asOf)
      (P.keep user grants asOf) d := by
  unfold keep
  split
  · exact .pure fun _ d' hd _ => ⟨rfl, h.later hd.tables⟩
  · have hinsert : SafeOk P.contract Clear x (fun _ d' => P.ReadFrom d'.tables user grants asOf)
        (access (.insert user asOf) (.insert user grants P.ttl asOf)) d := by
      refine access_safe (fun d' hd hsound hclear => ?_) fun h hd => h.later hd.tables
      have hread := h.later hd.tables
      exact ⟨Slots.Fresh.put hsound hclear hread, ⟨d'.tables.later_refl, fun _ => le_refl _⟩, hread⟩
    exact .bind hinsert fun _ d' h => .pure fun _ d'' hd _ => ⟨rfl, h.later hd.tables⟩

theorem cached_readFrom (hsound : P.Sound d) (h : d.cached user = some grants) :
    d.cache.cleared user ≤ d.cache.readAt user ∧ P.ReadFrom d.tables user grants (d.cache.readAt user) := by
  unfold World.cached at h
  split at h
  · cases h
  · rename_i entry hentry
    split at h
    · cases h
      exact hsound.entry hentry
    · cases h

def Answers (user : Int) (wrote : Nat) (outcome : Outcome) (d : World) : Prop :=
  ∃ grants asOf, outcome = .granted grants asOf ∧ wrote ≤ asOf ∧ P.ReadFrom d.tables user grants asOf

theorem grantsFor_safe (h : wrote ≤ d.cache.cleared user) :
    SafeOk P.contract Clear x (P.Answers user wrote) (P.grantsFor x user) d := by
  have hlookup : SafeOk P.contract Clear x
      (fun cached d' => wrote ≤ d'.tables.clock ∧ ∀ grants asOf, cached = some (grants, asOf) →
        wrote ≤ asOf ∧ P.ReadFrom d'.tables user grants asOf)
      (lookup user) d := by
    refine .statement (fun n d' hd hsound _ => .query ⟨hsound, d'.later_refl, ?_, ?_⟩) ?_
    · exact (h.trans (hd.cleared user)).trans (hsound.cleared user)
    · intro grants asOf hcached
      obtain ⟨_, hgrants, heq⟩ := Option.map_eq_some_iff.mp hcached
      cases heq
      obtain ⟨hle, hread⟩ := cached_readFrom hsound hgrants
      exact ⟨(h.trans (hd.cleared user)).trans hle, hread⟩
    · rintro cached d' n d'' ⟨hclock, hcached⟩ hd _
      refine ⟨hclock.trans hd.tables.clock, fun grants asOf heq => ?_⟩
      obtain ⟨hle, hread⟩ := hcached grants asOf heq
      exact ⟨hle, hread.later hd.tables⟩
  refine .bind hlookup fun cached d1 ⟨hclock, hcached⟩ => ?_
  cases cached with
  | some r =>
    obtain ⟨hle, hread⟩ := hcached r.1 r.2 rfl
    exact .pure fun _ d' hd _ => ⟨r.1, r.2, rfl, hle, hread.later hd.tables⟩
  | none =>
    refine .bind load_safe fun r d2 ⟨hle, hread⟩ => ?_
    refine Prog.Safe.weaken (keep_safe hread) fun outcome d3 hkept a ha => ?_
    obtain ⟨rfl, hread⟩ := hkept a ha
    exact ⟨r.1, r.2, rfl, hclock.trans hle, hread⟩

/-! ## Runs -/

def Promise (x : Request) (r : Except String Outcome) (d : World) : Prop :=
  ∀ wrote user, r = .ok (.changed wrote) → x.call.concerns user → wrote ≤ d.cache.cleared user

theorem run_safe (x : Request) : SafeOk P.contract Clear x
    (fun outcome d' => Promise x (.ok outcome) d') (P.run x) d := by
  have hone : ∀ {u : Int} {op : Op Nat}, (∀ user, x.call.concerns user → u = user) →
      SafeOk P.contract Clear x (Dropped (some u)) op d →
      SafeOk P.contract Clear x (fun outcome d' => Promise x (.ok outcome) d') (Outcome.changed <$> op) d := by
    intro u op hconcerns hop
    refine .map hop fun wrote d' hdropped wrote' user heq huser => ?_
    cases heq
    exact hdropped user (decide_eq_true (hconcerns user huser))
  have hall : ∀ {op : Op Nat}, SafeOk P.contract Clear x (Dropped none) op d →
      SafeOk P.contract Clear x (fun outcome d' => Promise x (.ok outcome) d') (Outcome.changed <$> op) d := by
    intro op hop
    refine .map hop fun wrote d' hdropped wrote' user heq _ => ?_
    cases heq
    exact hdropped user rfl
  unfold run
  cases hcall : x.call with
  | grantsFor user =>
    refine Prog.Safe.weaken (grantsFor_safe (zero_le _)) fun r d' hr outcome houtcome wrote user heq => ?_
    obtain ⟨_, _, rfl, -⟩ := hr outcome houtcome
    cases heq
  | assignRole user role => exact hone (fun u hu => by rwa [hcall] at hu) (assignRole_safe role)
  | removeRole user role => exact hone (fun u hu => by rwa [hcall] at hu) (removeRole_safe role)
  | grant user permission => exact hone (fun u hu => by rwa [hcall] at hu) (setDirect_safe permission true)
  | deny user permission => exact hone (fun u hu => by rwa [hcall] at hu) (setDirect_safe permission false)
  | reset user permission => exact hone (fun u hu => by rwa [hcall] at hu) (reset_safe permission)
  | purgeUser => exact hone (fun u hu => by rwa [hcall] at hu) purgeUser_safe
  | attachPermission role permission => exact hall (attachPermission_safe role permission)
  | detachPermission role permission => exact hall (detachPermission_safe role permission)
  | setRolePermissions role names => exact hall (setRolePermissions_safe role names)
  | rename kind source target => exact hall (rename_safe kind source target)
  | delete kind name => exact hall (delete_safe kind name)
  | create kind name description =>
    refine .map (create_safe kind name description) fun id d' _ wrote user heq => ?_
    cases heq
  | wait duration =>
    have hwait : SafeOk P.contract Clear x (fun _ _ => True) (access .wait (.wait duration)) d :=
      access_safe (fun d' _ hsound _ => ⟨hsound, ⟨d'.tables.later_refl, fun _ => le_refl _⟩, trivial⟩)
        fun _ _ => trivial
    exact .bind hwait fun _ d' _ => .pure fun _ _ _ _ wrote user heq => by cases heq

theorem system_safe : (P.system Clear).Safe P.contract Promise := by
  intro x _ n d _
  refine Prog.Safe.weaken (run_safe x) fun r d' hr wrote user heq => ?_
  subst heq
  exact hr _ rfl wrote user rfl

variable (P)

/-- Where no grants are put in that a change has overtaken, a check that starts once a change has returned answers
    from grants read after it. -/
theorem check_not_older (t : Tables) {c₀ c : Config Request Point World Write (Except String Outcome)}
    (hc₀ : (P.system Clear).Reachable { tables := { current := t } } c₀)
    {i : Nat} {x y : Request} {user : Int} (hx : x.call.concerns user) {wrote : Nat}
    (hreturned : c₀.calls[i]? = some (x, .ret (.ok (.changed wrote)))) (hy : y.call = .grantsFor user)
    (hrun : (P.system Clear).Run { c₀ with calls := c₀.calls ++ [(y, (P.system Clear).program y)] } c)
    {grants : Grants} {asOf : Nat}
    (hanswer : c.calls[c₀.calls.length]? = some (y, .ret (.ok (.granted grants asOf)))) :
    wrote ≤ asOf ∧ P.ReadFrom c.db.tables user grants asOf := by
  have hsound : P.Sound { tables := { current := t } } := Slots.Fresh.empty
  have hok := P.system_safe.reachable hsound hc₀
  have hcleared := hok.returned (List.mem_of_getElem? hreturned) wrote user rfl hx
  -- the check begins where the entry has been dropped
  have hcheck : SafeOk P.contract Clear y (P.Answers user wrote) (P.run y) c₀.db := by
    unfold run
    rw [hy]
    exact grantsFor_safe hcleared
  have hbegun := P.system_safe.run hok (.single (.call y trivial))
  obtain ⟨_, hp, hsafe⟩ := P.system_safe.call_of_run hbegun List.getElem?_concat_length hcheck hrun
  rw [hanswer] at hp
  cases hp
  have hdone := P.system_safe.run hbegun hrun
  obtain ⟨_, _, heq, hle, hread⟩ := hsafe c.next c.db (P.contract.rely_refl _) hdone.inv _ rfl
  cases heq
  exact ⟨hle, hread⟩

/-! ## An editor who is one no longer -/

def newsroom : Tables where
  roles := { rows := [{ id := 1, name := "editor" }], nextId := 2 }
  permissions := { rows := [{ id := 1, name := "posts.*" }], nextId := 2 }
  rolePermission := [(1, 1)]
  userRole := [(41, 1)]

def editor : Grants := { roles := ["editor"], granted := ["posts.*"] }

def checking : Request := { call := .grantsFor 41 }

def removing : Request := { call := .removeRole 41 "editor" }

theorem check_not_older_of_removal : ∃ c₀ c, (system {} Clear).Reachable { tables := { current := newsroom } } c₀ ∧
      c₀.calls[0]? = some (removing, .ret (.ok (.changed 1))) ∧
      (system {} Clear).Run { c₀ with calls := c₀.calls ++ [(checking, (system {} Clear).program checking)] } c ∧
      c.calls[c₀.calls.length]? = some (checking, .ret (.ok (.granted {} 1))) ∧
      1 ≤ 1 ∧ ReadFrom {} c.db.tables 41 {} 1 := by
  obtain ⟨c₀, c, hc₀, hreturned, hrun, hanswer⟩ := (system {} Clear).play_after
    [.call removing, .advance 0, .advance 0, .advance 0] [.advance 1, .advance 1, .advance 1, .advance 1]
    { next := 0, db := { tables := { current := newsroom } }, calls := [] } 0 removing checking
    (.ok (.changed 1)) (.ok (.granted {} 1)) rfl
  exact ⟨c₀, c, hc₀, hreturned, hrun, hanswer,
    check_not_older {} newsroom hc₀ (x := removing) rfl hreturned rfl hrun hanswer⟩

/-- A check reads the editor's grants; the role is taken away and the entry dropped; the check puts in what it has
    read. -/
theorem check_older : ∃ c₀ c, (system {} fun _ _ _ => True).Reachable { tables := { current := newsroom } } c₀ ∧
      c₀.calls[1]? = some (removing, .ret (.ok (.changed 1))) ∧
      (system {} fun _ _ _ => True).Run
        { c₀ with calls := c₀.calls ++ [(checking, (system {} fun _ _ _ => True).program checking)] } c ∧
      c.calls[c₀.calls.length]? = some (checking, .ret (.ok (.granted editor 0))) ∧
      editor.allows "posts.publish" = true := by
  obtain ⟨c₀, c, hc₀, hreturned, hrun, hanswer⟩ := (system {} fun _ _ _ => True).play_after
    [.call checking, .advance 0, .advance 0, .advance 0, .advance 0, .call removing, .advance 1, .advance 1,
      .advance 1, .advance 0] [.advance 2]
    { next := 0, db := { tables := { current := newsroom } }, calls := [] } 1 removing checking
    (.ok (.changed 1)) (.ok (.granted editor 0)) rfl
  exact ⟨c₀, c, hc₀, hreturned, hrun, hanswer, by decide +kernel⟩

end Permissions

end Rustlavel.Rbac
