/-
  Whole connections. Served from the whole stream (`serveStream`) or from pieces of it, a connection brings the
  same requests and comes to the same end.
-/

import Rustlavel.Http.Stream

namespace Rustlavel.Http.Server

open Outcome Reading Relation List

variable (S : Server) {fuel : Nat} {body s : List UInt8}

/-! ## Only forward -/

section

variable {S} {r : List UInt8 × List UInt8}

theorem takeTrailers_forward {s left : List UInt8} (h : takeTrailers fuel s = .ok left) : left <:+ s := by
  induction fuel generalizing s with
  | zero => cases h
  | succ fuel ih =>
    rw [takeTrailers] at h
    split at h
    · cases h
      exact suffix_refl _
    · split at h
      · cases h
        exact drop_suffix 2 s
      · exact (ih h).trans (drop_suffix _ s)

theorem takeChunk_forward {size : Nat} (h : S.takeChunk size body s = .ok r) : r.2 <:+ s := by
  obtain ⟨_, -, h⟩ := Outcome.bind_eq_ok.mp h
  split at h
  · cases h
  · obtain ⟨need, -, h⟩ := Outcome.bind_eq_ok.mp h
    split at h
    · cases h
      exact drop_suffix need s
    · cases h

theorem takeChunks_forward (h : S.takeChunks fuel body s = .ok r) : r.2 <:+ s := by
  induction fuel generalizing body s with
  | zero => cases h
  | succ fuel ih =>
    rw [takeChunks] at h
    split at h
    · cases h
    · rename_i e hend
      have hline : s.drop (e + 2) <:+ s := drop_suffix _ s
      split at h
      · cases h
      · obtain ⟨rest, hrest, h⟩ := Outcome.bind_eq_ok.mp h
        cases h
        exact (takeTrailers_forward hrest).trans hline
      · obtain ⟨chunk, hchunk, h⟩ := Outcome.bind_eq_ok.mp h
        exact ((ih h).trans (takeChunk_forward hchunk)).trans hline

theorem takeBody_forward {headers : Headers} (h : S.takeBody headers s = .ok r) : r.2 <:+ s := by
  rw [takeBody] at h
  split at h
  · exact takeChunks_forward h
  · split at h
    · cases h
      exact suffix_refl s
    · split at h
      · cases h
      · split at h
        · cases h
          exact drop_suffix _ s
        · cases h

theorem takeRequest_forward {head s : List UInt8} {peer : IpAddr.Ip} {r : (Request × Bool) × List UInt8}
    (h : S.takeRequest head peer s = .ok r) : r.2 <:+ s := by
  obtain ⟨_, -, h⟩ := Outcome.bind_eq_ok.mp h
  obtain ⟨_, hbody, h⟩ := Outcome.bind_eq_ok.mp h
  cases h
  exact takeBody_forward hbody

end

/-! ## Every loop stops -/

section

theorem findCrlf_le {e : Nat} (h : findCrlf s = some e) : e + 2 ≤ s.length :=
  add_length_le_of_position h (by decide)

theorem takeTrailers_ok (hfuel : s.length < fuel) : ∃ rest, takeTrailers fuel s = .ok rest := by
  induction fuel generalizing s with
  | zero => omega
  | succ fuel ih =>
    rw [takeTrailers]
    cases hend : findCrlf s with
    | none => exact ⟨s, rfl⟩
    | some =>
      have hle := findCrlf_le hend
      simp only
      split
      · exact ⟨_, rfl⟩
      · refine ih ?_
        rw [length_drop]
        omega

theorem takeChunk_stops (size : Nat) (body s : List UInt8) : S.takeChunk size body s ≠ .error .diverged := by
  rw [takeChunk]
  rcases addUsize_cases body.length size with htotal | htotal
  · rw [htotal, ok_bind]
    split
    · exact nofun
    · rcases addUsize_cases size 2 with hneed | hneed
      · rw [hneed, ok_bind]
        split <;> exact nofun
      · rw [hneed]
        exact nofun
  · rw [htotal]
    exact nofun

theorem bind_ne_diverged {α β : Type} {x : Result String α} {f : α → Result String β}
    (hx : x ≠ .error .diverged) (hf : ∀ a, x = .ok a → f a ≠ .error .diverged) : (x >>= f) ≠ .error .diverged := by
  cases x with
  | error =>
    intro h
    exact hx (congrArg Except.error (Except.error.inj h))
  | ok a => exact hf a rfl

theorem takeChunks_stops (hfuel : s.length < fuel) : S.takeChunks fuel body s ≠ .error .diverged := by
  induction fuel generalizing body s with
  | zero => omega
  | succ fuel ih =>
    rw [takeChunks]
    cases hend : findCrlf s with
    | none => rintro ⟨⟩
    | some e =>
      have hle := findCrlf_le hend
      simp only
      split
      · rintro ⟨⟩
      · obtain ⟨rest, hrest⟩ := takeTrailers_ok (Nat.lt_succ_self (s.drop (e + 2)).length)
        rw [hrest]
        rintro ⟨⟩
      · refine bind_ne_diverged (S.takeChunk_stops _ body _) fun chunk hchunk => ?_
        refine ih ?_
        have hforward := (takeChunk_forward hchunk).length_le
        rw [length_drop] at hforward
        omega

theorem takeBody_stops (headers : Headers) (s : List UInt8) : S.takeBody headers s ≠ .error .diverged := by
  rw [takeBody]
  split
  · exact S.takeChunks_stops (Nat.lt_succ_self _)
  · split
    · rintro ⟨⟩
    · split
      · rintro ⟨⟩
      · split <;> rintro ⟨⟩

theorem parseHead_stops (head : List UInt8) : parseHead head ≠ .error .diverged := by
  intro h
  obtain ⟨_, hmessage⟩ := parseHead_answers head _ h
  cases hmessage

theorem takeRequest_stops (head : List UInt8) (peer : IpAddr.Ip) (s : List UInt8) :
    S.takeRequest head peer s ≠ .error .diverged := by
  refine bind_ne_diverged (parseHead_stops head) fun parsed _ => ?_
  refine bind_ne_diverged (S.takeBody_stops _ s) fun body _ => ?_
  exact nofun

end

/-! ## Serving -/

section

variable (upgrades : Dispatched → Bool) (peer : IpAddr.Ip)

def serveStream : Nat → Dispatched → List UInt8 → Dispatched × Ending (List UInt8)
  | 0, done, _ => (done, .failed .diverged)
  | fuel + 1, done, s =>
    match S.takeHead s with
    | .error fault => (done, .failed fault)
    | .ok (none, _) => (done, .closed)
    | .ok (some head, s) =>
      match S.takeRequest head peer s with
      | .error (.error message) => (done, .refused ("malformed request: " ++ message))
      | .error fault => (done, .failed fault)
      | .ok (parsed, s) =>
        let done := done ++ [parsed]
        if upgrades done then (done, .upgraded s)
        else if parsed.2 then serveStream fuel done s
        else (done, .closed)

/-- A request is dispatched and the connection kept: what has been dispatched, and what
    is still to come, before and after. -/
inductive Serves : Dispatched × List UInt8 → Dispatched × List UInt8 → Prop where
  | request {done : Dispatched} {s left : List UInt8} {e : Nat} {parsed : Request × Bool}
      (hend : findHeadEnd s = some e) (hparse : S.takeRequest (s.take e) peer (s.drop e) = .ok (parsed, left))
      (hstays : upgrades (done ++ [parsed]) = false) (hkeep : parsed.2 = true) :
      Serves (done, s) (done ++ [parsed], left)

def HeadsFit (start : Dispatched × List UInt8) : Prop :=
  ∀ done left, ReflTransGen (S.Serves upgrades peer) start (done, left) →
    ∀ e, findHeadEnd left = some e → e ≤ S.maxHeaderBytes

variable {upgrades peer}

theorem HeadsFit.step {a b : Dispatched × List UInt8} (h : S.HeadsFit upgrades peer a)
    (hstep : S.Serves upgrades peer a b) : S.HeadsFit upgrades peer b := by
  intro done left hreach
  exact h done left (ReflTransGen.head hstep hreach)

variable {S} in
theorem takeHead_eq_some {s head rest : List UInt8} (h : S.takeHead s = .ok (some head, rest)) :
    ∃ e, findHeadEnd s = some e ∧ head = s.take e ∧ rest = s.drop e := by
  rw [takeHead] at h
  split at h
  · rename_i e hend
    cases h
    exact ⟨e, hend, rfl, rfl⟩
  · split at h
    · cases h
    · split at h <;> cases h

theorem takeHead_stops (s : List UInt8) : S.takeHead s ≠ .error .diverged := by
  rw [takeHead]
  split
  · rintro ⟨⟩
  · split
    · rintro ⟨⟩
    · split <;> rintro ⟨⟩

theorem findHeadEnd_le {e : Nat} (h : findHeadEnd s = some e) : 4 ≤ e ∧ e ≤ s.length := by
  obtain ⟨i, hi, rfl⟩ := Option.map_eq_some_iff.mp h
  have hle := add_length_le_of_position hi (by decide)
  simp only [crlf, length_append, length_cons, length_nil] at hle
  omega

theorem headsFit_of_length {done : Dispatched} (h : s.length ≤ S.maxHeaderBytes) :
    S.HeadsFit upgrades peer (done, s) := by
  intro done' left hreach e hend
  have hshorter : left.length ≤ s.length := by
    clear hend
    -- every request served leaves less of the stream
    generalize hstart : (done, s) = start at hreach
    generalize hstop : (done', left) = stop at hreach
    induction hreach generalizing done' left with
    | refl =>
      rw [← hstart] at hstop
      exact Nat.le_of_eq (congrArg (·.2.length) hstop)
    | tail _ hstep ih =>
      cases hstep with
      | request hend hparse =>
        cases hstop
        have hleft := (takeRequest_forward hparse).length_le
        rw [length_drop] at hleft
        have hmid := ih _ _ rfl
        simp only at hleft
        omega
  have hle := findHeadEnd_le hend
  omega

theorem serve_eq_serveStream {done : Dispatched} {conn : Conn} (hfits : S.HeadsFit upgrades peer (done, conn.all)) :
    ((S.serve upgrades peer fuel done conn).1, (S.serve upgrades peer fuel done conn).2.map Buffered.all) =
      S.serveStream upgrades peer fuel done conn.all := by
  induction fuel generalizing done conn with
  | zero => rfl
  | succ fuel ih =>
    have hhead := S.readHead_agrees (hfits done conn.all .refl)
    rw [serve, serveStream]
    obtain ⟨fault, hx, hy⟩ | ⟨⟨found, conn'⟩, ⟨found', s⟩, hx, hy, hfound, hs⟩ := hhead.ends
    · rw [hx, hy]
      rfl
    rw [hx, hy]
    simp only at hfound hs
    subst hfound hs
    cases found with
    | none => rfl
    | some head =>
      simp only
      obtain ⟨fault, hx', hy'⟩ | ⟨⟨parsed, left⟩, ⟨parsed', s⟩, hx', hy', hparsed, hs⟩ :=
        (S.parse_agrees head peer conn').ends
      · rw [hx', hy']
        cases fault <;> rfl
      rw [hx', hy']
      simp only at hparsed hs ⊢
      subst hparsed hs
      cases hupgrades : upgrades (done ++ [parsed]) with
      | true => rfl
      | false =>
        cases hkeep : parsed.2 with
        | false => rfl
        | true =>
          obtain ⟨_, hend, rfl, hrest⟩ := takeHead_eq_some hy
          refine ih (HeadsFit.step S hfits ?_)
          rw [hrest] at hy'
          exact .request hend hy' hupgrades hkeep

theorem serveStream_stops {done : Dispatched} (hfuel : s.length < fuel) :
    (S.serveStream upgrades peer fuel done s).2 ≠ .failed .diverged := by
  induction fuel generalizing done s with
  | zero => omega
  | succ fuel ih =>
    rw [serveStream]
    cases hhead : S.takeHead s with
    | error =>
      intro h
      cases h
      exact S.takeHead_stops s hhead
    | ok r =>
      obtain ⟨found, _⟩ := r
      cases found with
      | none => exact nofun
      | some =>
        obtain ⟨e, hend, rfl, rfl⟩ := takeHead_eq_some hhead
        simp only
        cases hparse : S.takeRequest (s.take e) peer (s.drop e) with
        | error fault =>
          cases fault with
          | error | panic => exact nofun
          | diverged => exact absurd hparse (S.takeRequest_stops _ _ _)
        | ok r =>
          obtain ⟨_, _⟩ := r
          simp only
          split
          · exact nofun
          · split
            · refine ih ?_
              have hshorter := (takeRequest_forward hparse).length_le
              have hle := findHeadEnd_le hend
              rw [length_drop] at hshorter
              simp only at hshorter
              omega
            · exact nofun

end

/-- However a stream is cut into reads, the same requests are dispatched from it, and
    serving the connection comes to the same end. -/
theorem serveConnection_of_cuts (upgrades : Dispatched → Bool) (peer : IpAddr.Ip) (bytes : List UInt8)
    (hfits : S.HeadsFit upgrades peer ([], bytes)) (cuts cuts' : List Nat) :
    let served := S.serveConnection upgrades peer { pending := bytes, cuts := cuts }
    let served' := S.serveConnection upgrades peer { pending := bytes, cuts := cuts' }
    served.1 = served'.1 ∧ served.2.map Buffered.all = served'.2.map Buffered.all ∧ served.2 ≠ .failed .diverged := by
  have hwhole : ∀ cuts : List Nat, ((S.serveConnection upgrades peer { pending := bytes, cuts := cuts }).1,
        (S.serveConnection upgrades peer { pending := bytes, cuts := cuts }).2.map Buffered.all) =
      S.serveStream upgrades peer (bytes.length + 1) [] bytes := by
    intro cuts
    exact S.serve_eq_serveStream hfits
  have hsame := (hwhole cuts).trans (hwhole cuts').symm
  obtain ⟨hdone, hend⟩ := Prod.mk.inj hsame
  refine ⟨hdone, hend, ?_⟩
  intro hfailed
  have hstops : (S.serveStream upgrades peer (bytes.length + 1) [] bytes).2 ≠ .failed .diverged :=
    S.serveStream_stops (Nat.lt_succ_self bytes.length)
  have hends := congrArg Prod.snd (hwhole cuts)
  rw [hfailed] at hends
  exact hstops hends.symm

theorem serveConnection_of_cuts_pipelined :
    let S : Server := { maxHeaderBytes := 65536, maxBodyBytes := 10485760 }
    let peer := IpAddr.Ip.v4 ⟨[127, 0, 0, 1], rfl⟩
    let bytes := Utf8.encode ("POST /a HTTP/1.1\r\nContent-Length: 2\r\n\r\nhi".toList ++
      "POST /b HTTP/1.1\r\nTransfer-Encoding: chunked\r\n\r\n2\r\nhi\r\n0\r\n\r\n".toList)
    let served := S.serveConnection (fun _ => false) peer { pending := bytes, cuts := List.replicate 200 0 }
    let served' := S.serveConnection (fun _ => false) peer { pending := bytes, cuts := [] }
    served.1.map (fun r => (r.1.path, r.1.body)) = [("/a", [104, 105]), ("/b", [104, 105])] ∧
      served.1 = served'.1 ∧ served.2.map Buffered.all = served'.2.map Buffered.all ∧
      served.2 ≠ .failed .diverged :=
  ⟨by decide, serveConnection_of_cuts _ _ _ _ (headsFit_of_length _ (by decide)) _ _⟩

end Rustlavel.Http.Server
