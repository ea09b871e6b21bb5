/-
  Responses: `rustlavel-http/src/response.rs`, without what takes the connection over.
-/

import Rustlavel.Core.Json
import Rustlavel.Http.Request
import Rustlavel.Lib.Double

namespace Rustlavel.Http

open Double List

structure Response where
  status : Nat
  headers : Headers := {}
  body : List UInt8 := []
  deriving DecidableEq

namespace Response

def withHeader (r : Response) (name value : String) : Response := { r with headers := r.headers.set name value }

def withJson (r : Response) (value : Json Whole) : Response :=
  { r.withHeader "content-type" "application/json; charset=utf-8" with
    body := Utf8.encode (value.write Whole.text) }

end Response

/-- Headers that went in through `append` and `set`: their lines are as those leave them. -/
def Headers.Clean (h : Headers) : Prop :=
  ∀ entry ∈ h.entries, lowercase (sanitise entry.1) = entry.1 ∧ sanitise entry.2 = entry.2

instance (h : Headers) : Decidable h.Clean :=
  inferInstanceAs (Decidable (∀ entry ∈ h.entries, _ ∧ _))

theorem toLower_cases (c : Char) : c.toLower = c ∨ 97 ≤ c.toLower.toNat ∧ c.toLower.toNat ≤ 122 := by
  by_cases h : c.val ≥ 'A'.val ∧ c.val ≤ 'Z'.val
  · have hlow : 65 ≤ c.toNat := UInt32.le_iff_toNat_le.mp h.1
    have hhigh : c.toNat ≤ 90 := UInt32.le_iff_toNat_le.mp h.2
    have hval : c.toLower.toNat = c.toNat + 32 := by
      rw [Char.toLower, dif_pos h]
      show (c.val + 32).toNat = _
      show (c.toNat + 32) % 2 ^ 32 = _
      omega
    exact .inr (by omega)
  · exact .inl (dif_neg h)

theorem toLower_toLower (c : Char) : c.toLower.toLower = c.toLower := by
  rcases toLower_cases c with h | h
  · rw [h, h]
  · refine dif_neg fun hupper => ?_
    have hhigh : c.toLower.toNat ≤ 90 := UInt32.le_iff_toNat_le.mp hupper.2
    omega

theorem lowercase_lowercase (name : String) : lowercase (lowercase name) = lowercase name := by
  rw [lowercase, lowercase, String.toList_ofList, map_map]
  exact congrArg String.ofList (map_congr_left fun c _ => toLower_toLower c)

theorem sanitise_sanitise (text : String) : sanitise (sanitise text) = sanitise text := by
  simp [sanitise, filter_filter]

theorem lowercase_sanitise_idem (name : String) :
    lowercase (sanitise (lowercase (sanitise name))) = lowercase (sanitise name) := by
  have hplain : ∀ c ∈ (sanitise name).toList.map Char.toLower, (c == '\t' || !Text.isControl c) = true := by
    intro c hc
    obtain ⟨x, hx, rfl⟩ := mem_map.mp hc
    rcases toLower_cases x with h | h
    · rw [h]
      simp only [sanitise, String.toList_ofList] at hx
      exact (mem_filter.mp hx).2
    · simp [Text.isControl]
      omega
  have hsame : sanitise (lowercase (sanitise name)) = lowercase (sanitise name) := by
    rw [sanitise, lowercase, String.toList_ofList, filter_eq_self.mpr hplain]
  rw [hsame, lowercase_lowercase]

theorem Headers.Clean.append {h : Headers} (hclean : h.Clean) (name value : String) : (h.append name value).Clean := by
  intro entry hentry
  rcases mem_append.mp hentry with hentry | hentry
  · exact hclean entry hentry
  · rw [mem_singleton.mp hentry]
    exact ⟨lowercase_sanitise_idem name, sanitise_sanitise value⟩

end Rustlavel.Http
