/-
  The middleware that answers a repeated request from memory: whose key it is, under which keys of the cache the
  lock and the answer are kept, and how an answer is kept there.
-/

import Rustlavel.Http.Response
import Rustlavel.Lib.BigEndian
import Rustlavel.Lib.Reading

namespace Rustlavel.Cache

open Http List Utf8

def hex16 (n : UInt64) : List Char := (List.range 16).reverse.map fun i => Nat.digitChar (n.toNat / 16 ^ i % 16)

/-- Whose key it is: the `Authorization` header where there is one, the address otherwise. -/
def defaultScope (hash : String → UInt64) (request : Request) : String :=
  match request.header "authorization" with
  | some auth => String.ofList ("auth:".toList ++ hex16 (hash auth))
  | none => "ip:" ++ request.ip.getD "unknown"

def fingerprint (hash : String × String × List UInt8 → UInt64) (request : Request) : String :=
  String.ofList (hex16 (hash (request.method.asStr, request.path, request.body)))

def keyLooksValid (key : String) : Bool :=
  let bytes := encode key.toList
  !bytes.isEmpty && bytes.length ≤ 255 && bytes.all fun b => 0x21 ≤ b.toNat && b.toNat ≤ 0x7e

def lockKey (scope key : String) : String := "idempotency:" ++ scope ++ ":" ++ key ++ ":lock"

def responseKey (scope key : String) : String := "idempotency:" ++ scope ++ ":" ++ key ++ ":response"

/-! ## Keys of different callers -/

/-- The address a caller without an `Authorization` header is told by. -/
def address (request : Request) : String := request.ip.getD "unknown"

/-- Both are told by their addresses; the second address goes on with a colon and a text where the first key begins
    with that text and a colon. -/
def RunsOver (request other : Request) (key key' : String) : Prop :=
  request.header "authorization" = none ∧ other.header "authorization" = none ∧
    ∃ more, address other = address request ++ ":" ++ more ∧ key = more ++ ":" ++ key'

theorem colon_not_mem_hex16 (n : UInt64) : ':' ∉ hex16 n := by
  intro hmem
  obtain ⟨i, -, hdigit⟩ := mem_map.mp hmem
  have hall : ∀ d : Fin 16, Nat.digitChar d.val ≠ ':' := by decide
  exact hall ⟨n.toNat / 16 ^ i % 16, Nat.mod_lt _ (by decide)⟩ hdigit

theorem toList_colon : ":".toList = [':'] := rfl

variable {hash : String → UInt64} {request other : Request} {key key' : String}

/-- A scope that goes on where another ends, with a colon, is an address, and so is the other. -/
theorem address_of_extends {more : List Char}
    (h : (defaultScope hash other).toList = (defaultScope hash request).toList ++ ':' :: more) :
    request.header "authorization" = none ∧ other.header "authorization" = none ∧
      address other = address request ++ ":" ++ String.ofList more := by
  unfold defaultScope at h
  cases hauth : request.header "authorization" with
  | some auth =>
    cases hauth' : other.header "authorization" with
    | some auth' =>
      -- the digits of a hash have no colon
      simp only [hauth, hauth', String.toList_ofList, append_assoc, append_cancel_left_eq] at h
      exact absurd (h ▸ mem_append_right _ mem_cons_self) (colon_not_mem_hex16 (hash auth'))
    | none =>
      simp only [hauth, hauth', String.toList_append, String.toList_ofList] at h
      exact absurd h (by simp)
  | none =>
    cases hauth' : other.header "authorization" with
    | some auth' =>
      simp only [hauth, hauth', String.toList_append, String.toList_ofList] at h
      exact absurd h (by simp)
    | none =>
      simp only [hauth, hauth', String.toList_append, append_assoc, append_cancel_left_eq] at h
      refine ⟨rfl, rfl, String.toList_inj.mp ?_⟩
      simpa [address, toList_colon] using h

theorem runsOver_of_joined
    (h : (defaultScope hash request).toList ++ ':' :: key.toList =
      (defaultScope hash other).toList ++ ':' :: key'.toList)
    (hle : (defaultScope hash request).toList.length ≤ (defaultScope hash other).toList.length) :
    (defaultScope hash request, key) = (defaultScope hash other, key') ∨ RunsOver request other key key' := by
  obtain ⟨rest, hscope⟩ := prefix_of_prefix_length_le (prefix_append _ _)
    (h ▸ prefix_append (defaultScope hash other).toList (':' :: key'.toList)) hle
  rw [← hscope, append_assoc, append_cancel_left_eq] at h
  cases rest with
  | nil =>
    left
    rw [append_nil] at hscope
    exact Prod.ext (String.toList_inj.mp hscope) (String.toList_inj.mp (List.cons.inj h).2)
  | cons c more =>
    -- the longer scope takes up the colon and the beginning of the shorter one's key
    right
    obtain ⟨rfl, hkeys⟩ := List.cons.inj h
    obtain ⟨hauth, hauth', haddress⟩ := address_of_extends hscope.symm
    refine ⟨hauth, hauth', String.ofList more, haddress, String.toList_inj.mp ?_⟩
    simpa [toList_colon] using hkeys

theorem joined_of_runsOver (h : RunsOver request other key key') :
    defaultScope hash request ++ ":" ++ key = defaultScope hash other ++ ":" ++ key' := by
  obtain ⟨hauth, hauth', more, haddress, rfl⟩ := h
  unfold address at haddress
  simp only [defaultScope, hauth, hauth', haddress, String.append_assoc]

/-- Different callers or keys have different entries, exactly when neither caller's address and key run over into
    the other's. -/
theorem keys_apart (hash : String → UInt64) (request other : Request) (key key' : String)
    (hne : (defaultScope hash request, key) ≠ (defaultScope hash other, key')) :
    let scope := defaultScope hash request
    let scope' := defaultScope hash other
    (lockKey scope key ≠ lockKey scope' key' ∧ responseKey scope key ≠ responseKey scope' key' ∧
      lockKey scope key ≠ responseKey scope' key' ∧ responseKey scope key ≠ lockKey scope' key') ↔
      ¬ RunsOver request other key key' ∧ ¬ RunsOver other request key' key := by
  intro scope scope'
  have hlock : ∀ a b : String, lockKey a b = "idempotency:" ++ (a ++ ":" ++ b) ++ ":lock" := by
    simp [lockKey, String.append_assoc]
  have hresponse : ∀ a b : String, responseKey a b = "idempotency:" ++ (a ++ ":" ++ b) ++ ":response" := by
    simp [responseKey, String.append_assoc]
  constructor
  · rintro ⟨hapart, -⟩
    rw [hlock, hlock] at hapart
    refine ⟨fun hover => hapart ?_, fun hover => hapart ?_⟩
    · rw [joined_of_runsOver hover]
    · rw [← joined_of_runsOver hover]
  · rintro ⟨hover, hover'⟩
    have hjoined : scope ++ ":" ++ key ≠ scope' ++ ":" ++ key' := by
      intro h
      have hlists := congrArg String.toList h
      simp only [String.toList_append, toList_colon, append_assoc, singleton_append] at hlists
      rcases Nat.le_total scope.toList.length scope'.toList.length with hle | hle
      · exact (runsOver_of_joined hlists hle).elim hne hover
      · exact (runsOver_of_joined hlists.symm hle).elim (fun heq => hne heq.symm) hover'
    -- the two kinds of key end with different letters
    have hkinds : ∀ a b c d : String, lockKey a b ≠ responseKey c d := by
      intro a b c d h
      have hlast := congrArg (fun key => key.toList.getLast?) h
      simp only [hlock, hresponse, String.toList_append, List.getLast?_append] at hlast
      exact absurd hlast (by simp)
    refine ⟨fun h => hjoined ?_, fun h => hjoined ?_, hkinds _ _ _ _, (hkinds _ _ _ _).symm⟩
    · rw [hlock, hlock] at h
      exact (String.append_right_inj _).mp ((String.append_left_inj _).mp h)
    · rw [hresponse, hresponse] at h
      exact (String.append_right_inj _).mp ((String.append_left_inj _).mp h)

def requestFrom (a : IpAddr.Ip) : Request := { Request.new .post "/payments" with peer := some a }

theorem keys_apart_of_v6 :
    let a := requestFrom (.v6 ⟨[0x2001, 0xdb8, 0, 0, 0, 0, 0, 1], rfl⟩)
    let b := requestFrom (.v6 ⟨[0x2001, 0xdb8, 0, 0, 0, 0, 0, 2], rfl⟩)
    lockKey (defaultScope (fun _ => 0) a) "a:b" ≠ lockKey (defaultScope (fun _ => 0) b) "c" := by
  have hlast (more : String) : (more ++ ":" ++ "c").toList.getLast? = some 'c' ∧
      (more ++ ":" ++ "a:b").toList.getLast? = some 'b' := by simp
  refine ((keys_apart (fun _ => 0) _ _ "a:b" "c" (by decide)).mpr ⟨?_, ?_⟩).1
  · rintro ⟨-, -, more, -, hkey⟩
    exact absurd (hkey ▸ (hlast more).1) (by decide)
  · rintro ⟨-, -, more, -, hkey⟩
    exact absurd (hkey ▸ (hlast more).2) (by decide)

/-- 2001:db8::1 with the key `2:a` and 2001:db8::1:2 with the key `a` share their entries. -/
theorem keys_shared :
    let a := requestFrom (.v6 ⟨[0x2001, 0xdb8, 0, 0, 0, 0, 0, 1], rfl⟩)
    let b := requestFrom (.v6 ⟨[0x2001, 0xdb8, 0, 0, 0, 0, 1, 2], rfl⟩)
    let scope := defaultScope (fun _ => 0) a
    let scope' := defaultScope (fun _ => 0) b
    keyLooksValid "2:a" = true ∧ keyLooksValid "a" = true ∧ scope ≠ scope' ∧
      lockKey scope "2:a" = lockKey scope' "a" ∧ responseKey scope "2:a" = responseKey scope' "a" := by
  decide

/-! ## What a request is -/

/-- What the hasher is given: after a text a byte that no text has, before the body its length. -/
def hasherInput (content : String × String × List UInt8) : List UInt8 :=
  encode content.1.toList ++ 0xff :: (encode content.2.1.toList ++ 0xff ::
    ((BigEndian.toBytes 8 content.2.2.length).reverse ++ content.2.2))

theorem text_ends {a b : String} {c d : List UInt8}
    (h : encode a.toList ++ 0xff :: c = encode b.toList ++ 0xff :: d) : a = b ∧ c = d := by
  have hnot : ∀ s : String, 0xff ∉ encode s.toList := by
    intro s hmem
    obtain ⟨c, -, hbyte⟩ := mem_flatMap.mp hmem
    have hcases := byte_cases hbyte
    simp at hcases
  obtain ⟨htext, rfl⟩ := Reading.append_cons_injective (hnot a) (hnot b) h
  have hsome := congrArg fromUtf8 htext
  rw [fromUtf8_encode, fromUtf8_encode] at hsome
  exact ⟨String.toList_inj.mp (Option.some.inj hsome), rfl⟩

theorem hasherInput_injective : Function.Injective hasherInput := by
  rintro ⟨method, path, body⟩ ⟨method', path', body'⟩ h
  obtain ⟨rfl, h⟩ := text_ends h
  obtain ⟨rfl, h⟩ := text_ends h
  obtain ⟨-, rfl⟩ := append_inj h (by simp)
  rfl

theorem hex16_injective : Function.Injective hex16 := by
  intro n m h
  have hdigit : ∀ a b : Fin 16, Nat.digitChar a.val = Nat.digitChar b.val → a = b := by decide
  have hlow : ∀ k ≤ 16, n.toNat % 16 ^ k = m.toNat % 16 ^ k := by
    intro k hk
    induction k with
    | zero => rw [Nat.pow_zero, Nat.mod_one, Nat.mod_one]
    | succ k ih =>
      have hchar := map_inj_left.mp h k (by simp; omega)
      have hsame := hdigit ⟨_, Nat.mod_lt _ (by decide)⟩ ⟨_, Nat.mod_lt _ (by decide)⟩ hchar
      rw [Nat.mod_pow_succ, Nat.mod_pow_succ, ih (by omega), Fin.mk.inj hsame]
  have hall : n.toNat % 2 ^ 64 = m.toNat % 2 ^ 64 := hlow 16 (Nat.le_refl 16)
  rw [Nat.mod_eq_of_lt n.toNat_lt, Nat.mod_eq_of_lt m.toNat_lt] at hall
  exact UInt64.toNat_inj.mp hall

def content (request : Request) : String × String × List UInt8 := (request.method.asStr, request.path, request.body)

theorem fingerprint_ne {hash : List UInt8 → UInt64} {first second : Request}
    (hdiffer : first.method ≠ second.method ∨ first.path ≠ second.path ∨ first.body ≠ second.body)
    (hcollide : hasherInput (content first) ≠ hasherInput (content second) →
      hash (hasherInput (content first)) ≠ hash (hasherInput (content second))) :
    fingerprint (hash ∘ hasherInput) first ≠ fingerprint (hash ∘ hasherInput) second := by
  have hcontent : content first ≠ content second := by
    intro h
    obtain ⟨hmethod, hrest⟩ := Prod.mk.inj h
    obtain ⟨hpath, hbody⟩ := Prod.mk.inj hrest
    have hparse := congrArg Method.parse hmethod
    rw [Method.parse_asStr, Method.parse_asStr] at hparse
    exact hdiffer.elim (· (Option.some.inj hparse)) (·.elim (· hpath) (· hbody))
  intro h
  have hlist := congrArg String.toList h
  rw [fingerprint, fingerprint, String.toList_ofList, String.toList_ofList] at hlist
  exact hcollide (hasherInput_injective.ne hcontent) (hex16_injective hlist)

end Rustlavel.Cache
