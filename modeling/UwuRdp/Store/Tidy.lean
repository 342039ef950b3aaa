import UwuRdp.Store.Backup
import UwuRdp.Store.Ownership
import Mathlib.Data.List.DropRight

/-!
# What edits leave is in shape

On a device that syncs with nobody, whatever it edits: names, addresses and logins are as their forms
would take them again, every stored password opens with the vault and is text, no two live groups of a
workspace share a name, and a host is in the workspace of its group.
-/

namespace UwuRdp

open Lib

variable {cx : Session} {db db' : Db} {k : EntityKind} {id : Uuid} {s s' : TxState} {clock : Hlc}
  {v : UnlockedVault}

/-! ## Text that passes its check again -/

theorem Text.trim_trim (t : Text) : Text.trim (Text.trim t) = Text.trim t := by
  have hstart : (Text.trim t).dropWhile Text.isWhitespace = Text.trim t := by
    cases htrim : Text.trim t with
    | nil => rfl
    | cons c rest =>
      obtain ⟨dropped, hstart⟩ : Text.trim t <+: t.dropWhile Text.isWhitespace :=
        List.rdropWhile_prefix Text.isWhitespace _
      rw [htrim, List.cons_append] at hstart
      have hc : Text.isWhitespace c = false := by
        have hhead := List.head?_dropWhile_not Text.isWhitespace t
        rw [← hstart] at hhead
        exact hhead
      rw [List.dropWhile_cons_of_neg (by rw [hc]; exact Bool.noConfusion)]
  show List.rdropWhile Text.isWhitespace ((Text.trim t).dropWhile Text.isWhitespace) = _
  rw [hstart]
  exact List.rdropWhile_idempotent _ _

theorem Text.trim_length_le (t : Text) : (Text.trim t).length ≤ t.length := by
  have hend : Text.trim t <+: t.dropWhile Text.isWhitespace := List.rdropWhile_prefix Text.isWhitespace _
  exact hend.length_le.trans (List.dropWhile_suffix _).length_le

theorem Text.trim_map {f : Char → Char} (hf : ∀ c, Text.isWhitespace (f c) = Text.isWhitespace c) (t : Text) :
    Text.trim (t.map f) = (Text.trim t).map f := by
  have hcomp : Text.isWhitespace ∘ f = Text.isWhitespace := funext hf
  unfold Text.trim Text.trimEndMatches
  rw [List.dropWhile_map, hcomp, ← List.map_reverse, List.dropWhile_map, hcomp, List.map_reverse]

theorem Text.toNat_asciiLowercase (c : Char) : (Text.asciiLowercase c).toNat =
    if 65 ≤ c.toNat ∧ c.toNat ≤ 90 then c.toNat + 32 else c.toNat := by
  unfold Text.asciiLowercase
  split
  · next h =>
    have hvalid : (c.toNat + 32).isValidChar := .inl (by omega)
    rw [Char.ofNat, dif_pos hvalid]
    rfl
  · rfl

theorem Text.isWhitespace_asciiLowercase (c : Char) :
    Text.isWhitespace (Text.asciiLowercase c) = Text.isWhitespace c := by
  unfold Text.isWhitespace
  rw [Text.toNat_asciiLowercase]
  split
  · next h =>
    rw [Bool.eq_iff_iff]
    simp only [Bool.or_eq_true, Bool.and_eq_true, decide_eq_true_eq, beq_iff_eq]
    omega
  · rfl

theorem Text.asciiLowercase_again (c : Char) :
    Text.asciiLowercase (Text.asciiLowercase c) = Text.asciiLowercase c := by
  have hnot : ¬(65 ≤ (Text.asciiLowercase c).toNat ∧ (Text.asciiLowercase c).toNat ≤ 90) := by
    rw [Text.toNat_asciiLowercase]
    split <;> omega
  rw [Text.asciiLowercase, if_neg hnot]

theorem normalise_normalise (t : Text) : normalise (normalise t) = normalise t := by
  have hlower : Text.asciiLowercase ∘ Text.asciiLowercase = Text.asciiLowercase := funext Text.asciiLowercase_again
  unfold normalise Text.toAsciiLowercase
  rw [Text.trim_map Text.isWhitespace_asciiLowercase, Text.trim_trim, List.map_map, hlower]

variable {name : Text}

variable {value : Option Text} {field : String}

theorem groupName_trimmed (h : groupName value = .ok (some name)) : Text.trim name = name := by
  unfold groupName at h
  cases hb : blankToNone value with
  | none =>
    rw [hb] at h
    cases h
  | some v =>
    rw [hb] at h
    dsimp only at h
    have hname : v = name := by
      split at h
      · cases h
      · split at h
        · cases h
        · cases h
          rfl
    subst hname
    obtain ⟨w, -, rfl⟩ := Option.map_eq_some_iff.mp (Option.filter_eq_some_iff.mp hb).1
    exact Text.trim_trim w

theorem blankToNone_again (htrim : Text.trim name = name) (hne : name ≠ []) :
    blankToNone (some name) = some name := by
  unfold blankToNone
  rw [Option.map_some, htrim, Option.filter_some, List.isEmpty_eq_false_iff.mpr hne]
  rfl

theorem groupName_again (h : groupName value = .ok (some name)) : groupName (some name) = .ok (some name) := by
  have hb := blankToNone_again (groupName_trimmed h) (groupName_ne_nil h)
  unfold groupName at h ⊢
  rw [hb]
  cases hv : blankToNone value with
  | none =>
    rw [hv] at h
    cases h
  | some v =>
    rw [hv] at h
    dsimp only at h ⊢
    have hname : v = name := by
      split at h
      · cases h
      · split at h
        · cases h
        · cases h
          rfl
    rw [hname] at h
    exact h

theorem cleanUsername_again {value username : Text}
    (h : cleanUsername field value = .ok username) : cleanUsername "username" username = .ok username := by
  have hu := cleanUsername_ok h
  unfold cleanUsername at h ⊢
  dsimp only at h ⊢
  rw [← hu] at h
  rw [hu, Text.trim_trim, ← hu]
  split at h
  · cases h
  · next hcontrol =>
    split at h
    · cases h
    · next hlong => rw [if_neg hcontrol, if_neg hlong]

theorem cleanDomain_again {value domain : Text}
    (h : cleanDomain field value = .ok domain) : cleanDomain "domain" domain = .ok domain := by
  have hd := cleanDomain_ok h
  unfold cleanDomain at h ⊢
  dsimp only at h ⊢
  rw [← hd] at h
  rw [hd, Text.trim_trim, ← hd]
  split at h
  · cases h
  · next hspace =>
    split at h
    · cases h
    · next hlong => rw [if_neg hspace, if_neg hlong]

/-! ## Settings that come out of their check as they went in -/

theorem clamp_clamp {n lo hi : UInt16} (h : lo ≤ hi) : clamp (clamp n lo hi) lo hi = clamp n lo hi := by
  unfold clamp
  by_cases hlo : n < lo
  · rw [if_pos hlo, if_neg (UInt16.lt_irrefl lo), if_neg (UInt16.not_lt.mpr h)]
  · rw [if_neg hlo]
    by_cases hhi : hi < n
    · rw [if_pos hhi, if_neg (UInt16.not_lt.mpr h), if_neg (UInt16.lt_irrefl hi)]
    · rw [if_neg hhi, if_neg hlo, if_neg hhi]

theorem chosen_again {α : Type} [BEq α] [LawfulBEq α] (choices : List α) (default : α)
    (h : default ∈ choices) (chosen : α) : (if choices.contains (if choices.contains chosen then chosen else default) then
      (if choices.contains chosen then chosen else default) else default) =
        if choices.contains chosen then chosen else default := by
  by_cases hc : choices.contains chosen = true
  · rw [if_pos hc, if_pos hc]
  · rw [if_neg hc, if_pos (List.contains_iff_mem.mpr h)]

theorem normalizeGateway_again {gateway g : GatewaySettings} (h : normalizeGateway gateway = some g) :
    normalizeGateway g = some g := by
  unfold normalizeGateway at h
  dsimp only at h
  split at h
  · cases h
  · next hne =>
    cases h
    have hport : (if (if gateway.port = 0 then (443 : UInt16) else gateway.port) = 0 then 443
        else if gateway.port = 0 then 443 else gateway.port) =
        if gateway.port = 0 then 443 else gateway.port := by
      by_cases hzero : gateway.port = 0
      · rw [if_pos hzero]
        rfl
      · rw [if_neg hzero, if_neg hzero]
    unfold normalizeGateway
    rw [Text.trim_trim, hport, if_neg hne]

theorem normalizeRdp_again [Platform] (rdp : RdpSettings) : normalizeRdp (normalizeRdp rdp) =
    { normalizeRdp rdp with drives := (normalizeRdp rdp).drives.map normalizeDrives } := by
  have hdisplay := chosen_again ["fit".toList, "fixed".toList, "fullscreen".toList] "fit".toList
    (by decide) rdp.display
  have hdepth := chosen_again [(15 : UInt32), 16, 24, 32] 32 (by decide) rdp.colorDepth
  have haudio := chosen_again ["local".toList, "remote".toList, "off".toList] "local".toList
    (by decide) rdp.audio
  have hgateway : (rdp.gateway.bind normalizeGateway).bind normalizeGateway = rdp.gateway.bind normalizeGateway := by
    cases h : rdp.gateway.bind normalizeGateway with
    | none => rfl
    | some g =>
      obtain ⟨gateway, -, hg⟩ := Option.bind_eq_some_iff.mp h
      exact normalizeGateway_again hg
  show RdpSettings.mk _ _ _ _ _ _ _ _ _ _ _ _ _ _ = RdpSettings.mk _ _ _ _ _ _ _ _ _ _ _ _ _ _
  rw [RdpSettings.mk.injEq]
  exact ⟨hdisplay, clamp_clamp (by decide), clamp_clamp (by decide), rfl, hdepth, haudio, rfl, rfl, rfl,
    rfl, rfl, hgateway, rfl, rfl⟩

/-! ## Rows in shape -/

/-- A host as its form would take it again. -/
structure HostTidy [Platform] (b : HostBody) : Prop where
  name : Text.trim b.name = b.name
  named : b.name ≠ []
  address : Text.trim b.address = b.address
  addressed : b.address ≠ []
  unspaced : b.address.any Text.isWhitespace = false
  port : b.port ≠ 0
  comment : b.comment.length ≤ 4000
  settings : normalizeRdp b.rdp = { b.rdp with drives := b.rdp.drives.map normalizeDrives }

/-- A login as its form would take it again. -/
structure LoginTidy (b : IdentityBody) : Prop where
  named : b.username ≠ []
  username : cleanUsername "username" b.username = .ok b.username
  domain : cleanDomain "domain" b.domain = .ok b.domain

def HoldsText (v : UnlockedVault) (id : Uuid) (b : Sealed) : Prop :=
  ∃ text : Text, text ≠ [] ∧ v.openRecord id .secret b = some (.bytes text.toUtf8)

/-- What a row of each kind looks like on a device that only ever edited. -/
def RowTidy [Platform] (v : UnlockedVault) : (k : EntityKind) → Uuid → Row (Body k) → Prop
  | .host, _, r => HostTidy r.body
  | .group, _, r => groupName (some r.body.name) = .ok (some r.body.name)
  | .identity, _, r => LoginTidy r.body
  | .secret, id, r => r.deleted = false → HoldsText v id r.body
  | .knownHost, _, r => normalise r.body.address = r.body.address
  | _, _, _ => True

def RowsTidy [Platform] (v : UnlockedVault) (s : TxState) : Prop :=
  ∀ k id r, s.db.row k id = some r → RowTidy v k id r

section Rows

variable [Platform]

theorem RowsTidy.congr (h : RowsTidy v s) (he : s'.db.rows = s.db.rows) : RowsTidy v s' :=
  fun k id r hr => h k id r ((row_congr he k id).symm.trans hr)

theorem tick_tidy : Tx.Ensures (RowsTidy v) (StoreTx.tick cx) fun _ => RowsTidy v :=
  fun _ hs _ _ hm => hs.congr (by rw [(tick_eq_ok hm).2]; rfl)

theorem query_tidy {α : Type} (f : Db → α) : Tx.Ensures (RowsTidy v) (StoreTx.query f) fun _ => RowsTidy v :=
  .conseq (query_ensures f) (fun _ h => h) fun _ _ h => h.1

theorem nowV7_tidy : Tx.Ensures (RowsTidy v) (StoreTx.nowV7 cx) fun _ => RowsTidy v := by
  intro s hs _ s' hm
  cases hm
  exact hs

theorem nowMs_tidy : Tx.Ensures (RowsTidy v) (StoreTx.nowMs cx) fun _ => RowsTidy v := by
  intro s hs _ s' hm
  cases hm
  exact hs

variable {r : Row (Body k)} {field : String} {secret current group login gatewayLogin : Option Uuid}
  {dst address : Text} {g : Uuid} {d : HostDraft} {password : Option (List UInt8)} {port : UInt16}
  {host : HostInput}

theorem setRow_tidy (hs : RowsTidy v s) (hr : RowTidy v k id r)
    (he : s'.db = s.db.setRow k id r) : RowsTidy v s' := by
  intro k₂ id₂ r₂ hr₂
  rw [he] at hr₂
  by_cases hself : k₂ = k ∧ id₂ = id
  · obtain ⟨rfl, rfl⟩ := hself
    rw [Db.row_setRow_self] at hr₂
    cases hr₂
    exact hr
  · rw [Db.row_setRow_ne hself] at hr₂
    exact hs k₂ id₂ r₂ hr₂

theorem insertRow_tidy (hr : RowTidy v k id r) :
    Tx.Ensures (RowsTidy v) (StoreTx.insertRow k id r) fun _ => RowsTidy v :=
  fun _ hs _ _ hm => setRow_tidy hs hr (insertRow_ok hm).2.2

theorem updateRow_tidy {f : Row (Body k) → Row (Body k)} (hf : ∀ r, RowTidy v k id r → RowTidy v k id (f r)) :
    Tx.Ensures (RowsTidy v) (StoreTx.updateRow k id f) fun _ => RowsTidy v := by
  intro s hs _ s' hm
  rcases updateRow_ok hm with ⟨-, he⟩ | ⟨r, hr, -, he⟩
  · exact hs.congr (by rw [he])
  · exact setRow_tidy hs (hf r (hs k id r hr)) he

theorem tombstoneLive_tidy {f : Body k → Body k} (hf : ∀ r, RowTidy v k id r → RowTidy v k id (r.tombstone clock f)) :
    Tx.Ensures (RowsTidy v) (tombstoneLive k id clock f) fun _ => RowsTidy v := by
  refine updateRow_tidy fun r hr => ?_
  split
  · exact hr
  · exact hf r hr

/-! ## Logins in shape -/

def PasswordChange.IsText : PasswordChange → Prop
  | .set value => ∃ text : Text, value = text.toUtf8
  | _ => True

variable {text username domain name : Text} {change : LoginChange} {workspace : Workspace} {set : ImportSet}

omit [Platform] in
theorem holdsText_seal (h : text ≠ []) : HoldsText v id (v.sealRecord id .secret (.bytes text.toUtf8)) := by
  refine ⟨text, h, ?_⟩
  unfold UnlockedVault.openRecord UnlockedVault.sealRecord
  exact if_pos ⟨rfl, rfl, rfl, rfl⟩

omit [Platform] in
theorem Text.ne_nil_of_toUtf8 (h : text.toUtf8 ≠ []) : text ≠ [] := by
  rintro rfl
  exact h rfl

theorem sealSecret_tidy (h : text.toUtf8 ≠ []) :
    Tx.Ensures (RowsTidy v) (sealSecret cx v text.toUtf8) fun _ => RowsTidy v := by
  refine .bind nowV7_tidy fun id => .bind tick_tidy fun clock => ?_
  refine .bind (insertRow_tidy ?_) fun _ => .pure _ fun _ h => h
  exact fun _ => holdsText_seal (Text.ne_nil_of_toUtf8 h)

theorem releaseSecret_tidy {secret : Uuid} :
    Tx.Ensures (RowsTidy v) (releaseSecret cx secret) fun _ => RowsTidy v := by
  refine .bind (query_tidy _) fun used => ?_
  refine .ite (fun _ => .pure _ fun _ h => h) fun _ => ?_
  refine .bind tick_tidy fun clock => tombstoneLive_tidy fun r _ hd => ?_
  cases hd

theorem releaseLogin_tidy {identity : Uuid} :
    Tx.Ensures (RowsTidy v) (releaseLogin cx clock identity) fun _ => RowsTidy v := by
  refine .bind (query_tidy _) fun used => ?_
  refine .ite (fun _ => .pure _ fun _ h => h) fun _ => ?_
  refine .bind (query_tidy _) fun row => ?_
  refine .bind (tombstoneLive_tidy fun r h => h) fun _ => ?_
  cases row with
  | none => exact .pure _ fun _ h => h
  | some r =>
    refine .ite (fun _ => .pure _ fun _ h => h) fun _ => ?_
    exact .forM fun secret _ => releaseSecret_tidy

theorem releaseAll_tidy {identities : List Uuid} :
    Tx.Ensures (RowsTidy v) (releaseAll cx clock identities) fun _ => RowsTidy v :=
  .forM fun _ _ => releaseLogin_tidy

omit [Platform] in
theorem checkLogin_again
    (h : checkLogin field change = .ok (username, domain)) :
    cleanUsername "username" username = .ok username ∧ cleanDomain "domain" domain = .ok domain ∧
      ∀ value, change.password = .set value → value ≠ [] := by
  unfold checkLogin at h
  split at h
  · cases h
  · cases h
  · next u d hu hd =>
    split at h
    · next value hset =>
      split at h
      · cases h
      · next hfull =>
        split at h
        · cases h
        · cases h
          refine ⟨cleanUsername_again hu, cleanDomain_again hd, fun value' hv hempty => hfull ?_⟩
          rw [hset] at hv
          cases hv
          exact List.isEmpty_iff.mpr hempty
    · next hunset =>
      cases h
      exact ⟨cleanUsername_again hu, cleanDomain_again hd, fun value hv => absurd hv (hunset value)⟩

/-- The vault is the one whose passwords the store holds, if it is open. -/
def Session.OpensWith (cx : Session) (v : UnlockedVault) : Prop := ∀ vault, cx.vault = some vault → vault = v

theorem newSecret_tidy {old : Option Uuid} {change : PasswordChange} (hv : cx.OpensWith v)
    (ht : change.IsText) (hn : ∀ value, change = .set value → value ≠ []) :
    Tx.Ensures (RowsTidy v) (newSecret cx old change) fun _ => RowsTidy v := by
  cases change with
  | keep | forget => exact .pure _ fun _ h => h
  | set value =>
    obtain ⟨text, rfl⟩ := ht
    refine .bind (R := fun vault s => RowsTidy v s ∧ vault = v)
      (.orFail fun s hs vault hvault => ⟨hs, hv vault hvault⟩) fun vault => ?_
    refine .intro fun he => ?_
    subst he
    exact .bind (sealSecret_tidy (hn _ rfl)) fun _ => .pure _ fun _ h => h

theorem insertLogin_tidy {label : Text} (hn : username ≠ [])
    (hu : cleanUsername "username" username = .ok username) (hd : cleanDomain "domain" domain = .ok domain) :
    Tx.Ensures (RowsTidy v) (insertLogin cx label username domain secret clock) fun _ => RowsTidy v := by
  refine .bind nowV7_tidy fun id => ?_
  exact .bind (insertRow_tidy ⟨hn, hu, hd⟩) fun _ => .pure _ fun _ h => h

theorem writeLogin_tidy {shared : Bool}
    (hn : username ≠ []) (hu : cleanUsername "username" username = .ok username)
    (hd : cleanDomain "domain" domain = .ok domain) :
    Tx.Ensures (RowsTidy v) (writeLogin cx current shared username domain secret clock)
      fun _ => RowsTidy v := by
  unfold writeLogin
  split
  · refine .bind (updateRow_tidy fun r _ => ?_) fun _ => .pure _ fun _ h => h
    exact ⟨hn, hu, hd⟩
  · exact insertLogin_tidy hn hu hd

theorem applyLogin_tidy (hv : cx.OpensWith v) (ht : change.password.IsText) :
    Tx.Ensures (RowsTidy v) (applyLogin cx current change field clock) fun _ => RowsTidy v := by
  unfold applyLogin
  split
  · exact .fail _
  · next username domain hc =>
    obtain ⟨hu, hd, hset⟩ := checkLogin_again hc
    refine .ite (fun _ => .pure _ fun _ h => h) fun hn => ?_
    refine .bind (query_tidy _) fun old => ?_
    refine .bind (newSecret_tidy hv ht hset) fun secret => ?_
    refine .bind (query_tidy _) fun shared => ?_
    refine .bind (writeLogin_tidy (fun he => hn (List.isEmpty_iff.mpr he)) hu hd) fun identity => ?_
    refine .bind (R := fun _ => RowsTidy v) ?_ fun _ => .pure _ fun _ h => h
    unfold releaseReplaced
    split
    · exact .pure _ fun _ h => h
    · exact .forM fun secret _ => releaseSecret_tidy

/-! ## Groups in shape -/

theorem ensureGroup_tidy (hn : groupName (some name) = .ok (some name)) :
    Tx.Ensures (RowsTidy v) (ensureGroup cx workspace name) fun _ => RowsTidy v := by
  refine .bind (query_tidy _) fun found => ?_
  cases found with
  | some id => exact .pure _ fun _ h => h
  | none =>
    refine .bind (query_tidy _) fun positions => ?_
    refine .bind (afterLast_ensures positions) fun position => ?_
    refine .bind tick_tidy fun clock => .bind nowV7_tidy fun id => ?_
    exact .bind (insertRow_tidy hn) fun _ => .pure _ fun _ h => h

theorem ensureGroupPath_tidy {value path : Option Text} (hp : groupName value = .ok path) : Tx.Ensures (RowsTidy v)
    (ensureGroupPath cx workspace path) fun _ => RowsTidy v := by
  cases path with
  | none => exact .pure _ fun _ h => h
  | some name =>
    exact .bind (ensureGroup_tidy (groupName_again hp)) fun _ => .pure _ fun _ h => h

theorem knownGroup_tidy : Tx.Ensures (RowsTidy v) (knownGroup workspace name) fun _ => RowsTidy v :=
  .bind (query_tidy _) fun _ => .orFail fun _ h _ _ => h

omit [Platform] in
theorem required_ok (h : required name = .ok dst) : groupName (some name) = .ok (some dst) := by
  unfold required at h
  split at h
  · cases h
  · cases h
  · next hn =>
    cases h
    exact hn

theorem updateGroup_tidy {f : Row GroupBody → Row GroupBody} (hf : ∀ r, (f r).body.name = r.body.name) :
    Tx.Ensures (RowsTidy v) (StoreTx.updateRow .group id f) fun _ => RowsTidy v := by
  refine updateRow_tidy fun r hr => ?_
  show groupName (some (f r).body.name) = _
  rw [hf r]
  exact hr

theorem updateHost_tidy {f : HostBody → HostBody} (hf : ∀ b, HostTidy b → HostTidy (f b)) : Tx.Ensures (RowsTidy v)
    (StoreTx.updateRow .host id fun r => r.rewrite clock f) fun _ => RowsTidy v :=
  updateRow_tidy fun r hr => hf r.body hr

theorem placeHosts_tidy (hosts : List Uuid) (position : ℤ) :
    Tx.Ensures (RowsTidy v) (placeHosts workspace group clock position hosts) fun _ => RowsTidy v := by
  induction hosts generalizing position with
  | nil => exact .pure _ fun _ h => h
  | cons id rest ih => exact .bind (updateHost_tidy fun b hb => { hb with }) fun _ => ih (position + 1)

theorem moveMembers_tidy {src : Uuid} {dst : Option Uuid} :
    Tx.Ensures (RowsTidy v) (moveMembers cx src workspace dst) fun _ => RowsTidy v := by
  refine .bind (query_tidy _) fun hosts => ?_
  refine .ite (fun _ => .pure _ fun _ h => h) fun _ => ?_
  refine .bind (nextPosition_ensures workspace dst) fun first => ?_
  exact .bind tick_tidy fun clock => placeHosts_tidy _ first

theorem tombstoneGroup_tidy : Tx.Ensures (RowsTidy v) (tombstoneGroup cx g) fun _ => RowsTidy v := by
  refine .bind tick_tidy fun clock => .bind (query_tidy _) fun row => ?_
  exact .bind (tombstoneLive_tidy fun r h => h) fun _ => releaseAll_tidy

theorem renameGroup_tidy {src : Text} :
    Tx.Ensures (RowsTidy v) (renameGroup cx workspace src dst) fun _ => RowsTidy v := by
  unfold renameGroup
  split
  · exact .fail _
  · next name hname =>
    refine .ite (fun _ => .pure _ fun _ h => h) fun _ => ?_
    refine .bind knownGroup_tidy fun srcId => .bind (query_tidy _) fun found => ?_
    cases found with
    | some dstId => exact .bind moveMembers_tidy fun _ => tombstoneGroup_tidy
    | none =>
      refine .bind tick_tidy fun clock => updateRow_tidy fun r _ => ?_
      exact groupName_again (required_ok hname)

theorem enterWorkspace_tidy : Tx.Ensures (RowsTidy v) (enterWorkspace cx g name workspace) fun _ => RowsTidy v := by
  refine .bind (query_tidy _) fun found => ?_
  cases found with
  | some target =>
    refine .bind moveMembers_tidy fun _ => ?_
    exact .bind tombstoneGroup_tidy fun _ => .pure _ fun _ h => h
  | none =>
    refine .bind tick_tidy fun clock => ?_
    refine .bind (updateGroup_tidy fun _ => rfl) fun _ => ?_
    refine .bind (query_tidy _) fun hosts => ?_
    refine .bind (R := fun _ => RowsTidy v) ?_ fun _ => .pure _ fun _ h => h
    exact .forM fun host _ => updateHost_tidy fun b hb => { hb with }

theorem moveGroup_tidy {dst : Workspace} {before : Option Text} :
    Tx.Ensures (RowsTidy v) (moveGroup cx workspace name dst before) fun _ => RowsTidy v := by
  refine moveGroup_ensures query_tidy tick_tidy (fun _ _ => ?_) fun g _ => ?_
  · exact .forM fun e _ => updateGroup_tidy fun _ => rfl
  · exact .conseq enterWorkspace_tidy (fun _ h => h.1) fun _ _ h => h

theorem setGroupLogin_tidy (hv : cx.OpensWith v) (ht : change.password.IsText) : Tx.Ensures (RowsTidy v)
    (setGroupLogin cx workspace name change) fun _ => RowsTidy v := by
  refine .bind (R := fun _ => RowsTidy v) (.require fun _ h _ => h) fun _ => ?_
  refine .bind knownGroup_tidy fun g => .bind (query_tidy _) fun current => ?_
  refine .bind tick_tidy fun clock => .bind (applyLogin_tidy hv ht) fun login => ?_
  exact .bind (updateGroup_tidy fun _ => rfl) fun _ => releaseAll_tidy

/-! ## Hosts in shape -/

theorem validated_tidy {d' : HostDraft} (h : d.validated = .ok d') (workspace : Workspace) (position : ℤ)
    (group login gatewayLogin : Option Uuid) (extra : Extra) :
    HostTidy (d'.body workspace position group login gatewayLogin extra) := by
  unfold HostDraft.validated at h
  dsimp only at h
  split at h
  · cases h
  next hempty =>
  split at h
  · cases h
  next hspace =>
  split at h
  · cases h
  next hport =>
  split at h
  · cases h
  next hlong =>
  split at h
  · cases h
  split at h
  · cases h
  next path hpath =>
  cases h
  have hne : Text.trim d.address ≠ [] := fun he => hempty (List.isEmpty_iff.mpr he)
  refine ⟨?_, ?_, Text.trim_trim _, hne, Bool.not_eq_true _ ▸ hspace, hport, ?_, normalizeRdp_again _⟩
  · show Text.trim (if (Text.trim d.name).isEmpty then Text.trim d.address else Text.trim d.name) = _
    split <;> exact Text.trim_trim _
  · show (if (Text.trim d.name).isEmpty then Text.trim d.address else Text.trim d.name) ≠ []
    split
    · exact hne
    · next hnamed => exact fun he => hnamed (List.isEmpty_iff.mpr he)
  · exact (Text.trim_length_le d.comment).trans (Nat.le_of_not_lt hlong)

theorem existingHost_tidy {id : Option Uuid} : Tx.Ensures (RowsTidy v) (existingHost id) fun _ => RowsTidy v := by
  cases id with
  | none => exact .pure _ fun _ h => h
  | some id =>
    refine .bind (query_tidy _) fun row => ?_
    exact .bind (R := fun _ => RowsTidy v) (.orFail fun _ h _ _ => h) fun r =>
      .pure _ fun _ h => h

theorem writeHostRow_tidy {existing : Option (Row HostBody)} {position : ℤ}
    (hd : ∀ extra, HostTidy (d.body workspace position group login gatewayLogin extra)) : Tx.Ensures (RowsTidy v)
    (writeHostRow cx d existing workspace position group login gatewayLogin clock) fun _ => RowsTidy v := by
  unfold writeHostRow
  split
  · exact .bind (updateHost_tidy fun b _ => hd b.extra) fun _ => .pure _ fun _ h => h
  · refine .bind nowV7_tidy fun id => ?_
    exact .bind (insertRow_tidy (hd [])) fun _ => .pure _ fun _ h => h

theorem readBack_tidy {id : Uuid} : Tx.Ensures (RowsTidy v) (do
    let record ← StoreTx.query fun db => readHost db id
    Tx.orFail record (.unknownHost id) : StoreTx HostRecord) fun _ => RowsTidy v :=
  .bind (query_tidy _) fun _ => .orFail fun _ h _ _ => h

theorem saveHost_tidy {draft : HostDraft} (hv : cx.OpensWith v) (ht : draft.password.IsText)
    (hg : draft.gatewayPassword.IsText) : Tx.Ensures (RowsTidy v) (saveHost cx draft) fun _ => RowsTidy v := by
  unfold saveHost
  split
  · exact .fail _
  · next d hd =>
    obtain ⟨-, -, -, hpassword, -, -, hgateway⟩ := validated_eq hd
    rw [← hpassword] at ht
    rw [← hgateway] at hg
    have hpath : groupName draft.groupPath = .ok d.groupPath := by
      unfold HostDraft.validated at hd
      dsimp only at hd
      iterate 5 (split at hd; · cases hd)
      split at hd
      · cases hd
      · next hpath =>
        cases hd
        exact hpath
    refine .ite (fun _ => .fail _) fun _ => ?_
    refine .bind tick_tidy fun clock => .bind existingHost_tidy fun existing => ?_
    refine .bind (ensureGroupPath_tidy hpath) fun group => ?_
    refine .bind (hostPosition_ensures existing _ group) fun position => ?_
    refine .bind (applyLogin_tidy hv ht) fun login => ?_
    refine .bind (applyLogin_tidy hv hg) fun gatewayLogin => ?_
    refine .bind (writeHostRow_tidy fun extra => validated_tidy hd _ _ _ _ _ extra) fun id => ?_
    exact .bind releaseAll_tidy fun _ => readBack_tidy

theorem deleteHost_tidy : Tx.Ensures (RowsTidy v) (deleteHost cx id) fun _ => RowsTidy v := by
  refine .bind tick_tidy fun clock => .bind (query_tidy _) fun row => ?_
  refine .bind (R := fun _ => RowsTidy v) (.orFail fun _ h _ _ => h) fun r => ?_
  exact .bind (tombstoneLive_tidy fun r h => h) fun _ => releaseAll_tidy

theorem setHostLogin_tidy (hv : cx.OpensWith v)
    (ht : ∀ value, password = some value → ∃ text : Text, value = text.toUtf8) :
    Tx.Ensures (RowsTidy v) (setHostLogin cx id username domain password) fun _ => RowsTidy v := by
  have hchange : (password.elim .keep .set : PasswordChange).IsText := by
    cases password with
    | none => trivial
    | some value => exact ht value rfl
  refine .bind (R := fun _ => RowsTidy v) (.require fun _ h _ => h) fun _ => ?_
  refine .bind (query_tidy _) fun row => ?_
  refine .bind (R := fun _ => RowsTidy v) (.orFail fun _ h _ _ => h) fun r => ?_
  refine .bind tick_tidy fun clock => ?_
  refine .bind (applyLogin_tidy hv hchange) fun login => ?_
  refine .bind (updateHost_tidy fun b hb => { hb with }) fun _ => ?_
  exact .bind releaseAll_tidy fun _ => readBack_tidy

theorem moveHost_tidy {group : Option Text} {before : Option Uuid} :
    Tx.Ensures (RowsTidy v) (moveHost cx id workspace group before) fun _ => RowsTidy v := by
  unfold moveHost
  split
  · exact .fail _
  · next path hpath =>
    refine .bind (query_tidy _) fun row => ?_
    refine .bind (R := fun _ => RowsTidy v) (.orFail fun _ h _ _ => h) fun r => ?_
    refine .bind (ensureGroupPath_tidy hpath) fun groupId => ?_
    refine .bind (query_tidy _) fun order => .bind tick_tidy fun clock => ?_
    refine .bind (R := fun _ => RowsTidy v) ?_ fun _ => readBack_tidy
    exact .forM fun e _ => updateHost_tidy fun b hb => { hb with }

/-! ## Certificates in shape -/

theorem trustHostKey_tidy {algorithm fingerprint publicKey : Text} : Tx.Ensures (RowsTidy v)
    (trustHostKey cx address port algorithm fingerprint publicKey) fun _ => RowsTidy v := by
  refine .bind tick_tidy fun clock => .bind nowV7_tidy fun id => ?_
  refine .bind nowMs_tidy fun firstSeenMs => .bind (query_tidy _) fun slot => ?_
  cases slot with
  | none => exact insertRow_tidy (normalise_normalise address)
  | some e => exact updateRow_tidy fun r h => h

theorem forgetHostKey_tidy : Tx.Ensures (RowsTidy v) (forgetHostKey cx address port) fun _ => RowsTidy v := by
  refine .bind tick_tidy fun clock => .bind (query_tidy _) fun slot => ?_
  cases slot with
  | none => exact .pure _ fun _ h => h
  | some e =>
    refine .ite (fun _ => .pure _ fun _ h => h) fun _ => ?_
    exact .bind (updateRow_tidy fun r h => h) fun _ => .pure _ fun _ h => h

/-! ## Imports in shape -/

def ImportSet.IsText (set : ImportSet) : Prop :=
  ∀ login ∈ set.logins, ∀ value, login.password = some value → ∃ text : Text, value = text.toUtf8

theorem importSecret_tidy (hv : cx.OpensWith v)
    (ht : ∀ value, password = some value → ∃ text : Text, value = text.toUtf8) :
    Tx.Ensures (RowsTidy v) (importSecret cx password) fun _ => RowsTidy v := by
  cases password with
  | none => exact .pure _ fun _ h => h
  | some value =>
    obtain ⟨text, rfl⟩ := ht value rfl
    refine .ite (fun _ => .pure _ fun _ h => h) fun hfull => ?_
    have hset := @newSecret_tidy cx v _ none (.set text.toUtf8) hv ⟨text, rfl⟩ fun value he hempty => ?_
    · exact hset
    · cases he
      exact hfull (List.isEmpty_iff.mpr hempty)

theorem importLogin_tidy {index : Option ℕ} (hv : cx.OpensWith v) (ht : set.IsText) :
    Tx.Ensures (RowsTidy v) (importLogin cx set index) fun _ => RowsTidy v := by
  unfold importLogin
  split
  · exact .pure _ fun _ h => h
  · next input hinput =>
    obtain ⟨i, -, hi⟩ := Option.bind_eq_some_iff.mp hinput
    have hmem := List.mem_of_getElem? hi
    split
    · next username domain hu hd =>
      refine .ite (fun _ => .pure _ fun _ h => h) fun hn => ?_
      refine .bind (importSecret_tidy hv (ht input hmem)) fun secret => ?_
      refine .bind tick_tidy fun clock => ?_
      refine .bind (insertLogin_tidy (fun he => hn (List.isEmpty_iff.mpr he))
        (cleanUsername_again hu) (cleanDomain_again hd)) fun _ => .pure _ fun _ h => h
    · exact .pure _ fun _ h => h

theorem importGroup_tidy {group : GroupInput} (hv : cx.OpensWith v) (ht : set.IsText) :
    Tx.Ensures (RowsTidy v) (importGroup cx set group) fun _ => RowsTidy v := by
  unfold importGroup
  split
  · exact .fail _
  · exact .pure _ fun _ h => h
  · next name hname =>
    refine .bind (ensureGroup_tidy (groupName_again hname)) fun g => ?_
    refine .bind (R := fun _ => RowsTidy v) ?_ fun _ => ?_
    · cases group.drives with
      | none => exact .pure _ fun _ h => h
      | some drives =>
        refine .bind tick_tidy fun clock => updateGroup_tidy fun r => ?_
        split <;> rfl
    · refine .bind (query_tidy _) fun has => ?_
      refine .ite (fun _ => .pure _ fun _ h => h) fun _ => ?_
      refine .bind (importLogin_tidy hv ht) fun login => ?_
      cases login with
      | none => exact .pure _ fun _ h => h
      | some identity => exact .bind tick_tidy fun clock => updateGroup_tidy fun _ => rfl

theorem imported_tidy (hp : isPlausible host = true) (workspace : Workspace) (position : ℤ)
    (group login gatewayLogin : Option Uuid) : HostTidy
      { name := if (Text.trim host.name).isEmpty then Text.trim host.address else Text.trim host.name
        address := Text.trim host.address, port := host.port, workspace, position
        groupId := group, identityId := login, rdp := normalizeRdp host.rdp
        comment := (Text.trim host.comment).take 4000, gatewayIdentityId := gatewayLogin
        extra := [] } := by
  unfold isPlausible at hp
  simp only [Bool.and_eq_true, Bool.not_eq_true', decide_eq_true_eq] at hp
  obtain ⟨⟨⟨⟨⟨hempty, -⟩, hspace⟩, -⟩, -⟩, hport⟩ := hp
  have hne : Text.trim host.address ≠ [] := List.isEmpty_eq_false_iff.mp hempty
  refine ⟨?_, ?_, Text.trim_trim _, hne, ?_, fun hzero => ?_, List.length_take_le .., normalizeRdp_again _⟩
  · dsimp only
    split <;> exact Text.trim_trim _
  · dsimp only
    split
    · exact hne
    · next hnamed => exact fun he => hnamed (List.isEmpty_iff.mpr he)
  · rw [List.any_eq_false] at hspace ⊢
    intro c hc hw
    exact hspace c hc (by rw [hw]; rfl)
  · rw [show host.port = 0 from hzero] at hport
    cases hport

theorem writeHost_tidy (hp : isPlausible host = true) :
    Tx.Ensures (RowsTidy v) (writeHost cx host login gatewayLogin) fun _ => RowsTidy v := by
  unfold writeHost
  split
  · exact .fail _
  · next path hpath =>
    refine .bind (ensureGroupPath_tidy hpath) fun group => ?_
    refine .bind (R := fun _ => RowsTidy v) ?_ fun position => ?_
    · cases host.position with
      | some p => exact .pure _ fun _ h => h
      | none => exact nextPosition_ensures host.workspace group
    · refine .bind tick_tidy fun clock => .bind nowV7_tidy fun id => ?_
      exact insertRow_tidy (imported_tidy hp _ _ _ _ _)

theorem importHosts_tidy (hv : cx.OpensWith v) (ht : set.IsText) (hosts : List HostInput)
    (added : List (Text × UInt16)) :
    Tx.Ensures (RowsTidy v) (importHosts cx set hosts added) fun _ => RowsTidy v := by
  induction hosts generalizing added with
  | nil => exact .pure _ fun _ h => h
  | cons host rest ih =>
    refine .bind (query_tidy _) fun there => ?_
    refine .ite (fun _ => ih added) fun htaken => ?_
    have hp : isPlausible host = true := by
      cases hlooks : isPlausible host with
      | true => rfl
      | false =>
        rw [hlooks] at htaken
        exact absurd rfl htaken
    refine .bind (importLogin_tidy hv ht) fun login => ?_
    refine .bind (importLogin_tidy hv ht) fun gatewayLogin => ?_
    exact .bind (writeHost_tidy hp) fun _ => ih _

theorem importSet_tidy (hv : cx.OpensWith v) (ht : set.IsText) :
    Tx.Ensures (RowsTidy v) (importSet cx set) fun _ => RowsTidy v := by
  refine .bind (R := fun _ => RowsTidy v) (.require fun _ h _ => h) fun _ => ?_
  refine .bind (.forM fun group _ => importGroup_tidy hv ht) fun _ => ?_
  refine .bind (importHosts_tidy hv ht set.hosts []) fun added => ?_
  refine .forM fun known _ => .bind (query_tidy _) fun slot => ?_
  cases slot with
  | some _ => exact .pure _ fun _ h => h
  | none =>
    refine .bind tick_tidy fun clock => .bind nowV7_tidy fun id => ?_
    exact .bind nowMs_tidy fun _ => insertRow_tidy (normalise_normalise known.address)

/-! ## Every edit -/

def LocalOp.IsText : LocalOp → Prop
  | saveHost draft => draft.password.IsText ∧ draft.gatewayPassword.IsText
  | setHostLogin _ _ _ password => ∀ value, password = some value → ∃ text : Text, value = text.toUtf8
  | setGroupLogin _ _ change => change.password.IsText
  | importSet set => set.IsText
  | _ => True

theorem LocalOp.call_tidy {op : LocalOp} (hv : cx.OpensWith v) (ht : op.IsText) :
    Tx.Ensures (RowsTidy v) (op.call cx) fun _ => RowsTidy v := by
  cases op with
  | saveHost draft => exact ignore_ensures (saveHost_tidy hv ht.1 ht.2)
  | deleteHost id => exact deleteHost_tidy
  | setHostLogin id username domain password => exact ignore_ensures (setHostLogin_tidy hv ht)
  | forgetHostPassword id =>
    refine ignore_ensures (.bind (query_tidy _) fun host => ?_)
    refine .bind (R := fun _ => RowsTidy v) (.orFail fun _ h _ _ => h) fun host => ?_
    exact saveHost_tidy hv trivial trivial
  | moveHost id workspace group before => exact ignore_ensures moveHost_tidy
  | createGroup workspace name =>
    refine ignore_ensures ?_
    unfold UwuRdp.createGroup
    split
    · exact .fail _
    · next name hname =>
      refine .bind (query_tidy _) fun found => ?_
      refine .bind (R := fun _ => RowsTidy v) (.require fun _ h _ => h) fun _ => ?_
      exact ensureGroup_tidy (groupName_again (required_ok hname))
  | setGroupDrives workspace name drives =>
    refine .bind knownGroup_tidy fun g => .bind tick_tidy fun clock => ?_
    exact updateGroup_tidy fun _ => rfl
  | setGroupLogin workspace name change => exact setGroupLogin_tidy hv ht
  | renameGroup workspace src dst => exact renameGroup_tidy
  | moveGroup workspace name dst before => exact moveGroup_tidy
  | deleteGroup workspace name =>
    refine .bind knownGroup_tidy fun g => ?_
    exact .bind moveMembers_tidy fun _ => tombstoneGroup_tidy
  | trustHostKey address port algorithm fingerprint publicKey => exact trustHostKey_tidy
  | forgetHostKey address port => exact ignore_ensures forgetHostKey_tidy
  | importSet set => exact importSet_tidy hv ht

end Rows

end UwuRdp
