import CimBroker.Server.Config
import CimBroker.Proofs.Address.Locator

/-!
# Overriding the bind address

`ServerConfig.applyBind` reads a locator, stores its host as text and takes
its port, keeping the configured port when the text gives none; the display
text `bindDisplay` writes host and port back, with an IPv6 host in brackets.
This module shows that the two agree: the stored host text is classified as
the family of the host that was read, so the host check of `validate` passes,
and the display text reads back as that host at the configured port.

Both rest on the round trips of `CimBroker.Proofs.Address.Locator`: the host
text reads back as the host, so `classify` names its family
(`classify_of_parse_eq_ok`), and the display text is the locator text of the
host and port.

## Main results

* `ServerConfig.applyBind_eq_ok` — what a successful override stores.
* `ServerConfig.bindDisplay_applyBind` — the display text after an override.
* `display_parse_inverse` — display and parse are inverse on hosts, on
  locators and through the bind override.
-/

namespace CimBroker.Server

open Address

namespace ServerConfig

/-- What a successful override stores: the text of the host read, and the port
read, or the configured port when the text gives none. -/
theorem applyBind_eq_ok {c c' : ServerConfig} {s : String} (h : c.applyBind s = .ok c') :
    ∃ l, Locator.parse s = .ok l ∧
      c' = { c with bindHost := l.host.toText, port := (l.portOr c.port.toUInt16).toNat } := by
  obtain ⟨l, hl, hc⟩ := Stream.Except.bind_eq_ok.1 h
  exact ⟨l, hl, (Stream.Except.ok_inj hc).symm⟩

/-- A bind host that is classified as some family passes the host check. -/
theorem validate_ne_invalidBindHost {c : ServerConfig} (h : classify c.bindHost ≠ .invalid) (e : String) :
    c.validate ≠ .error (.invalidBindHost e) := by
  unfold validate
  rw [if_neg h]
  split
  · simp
  · split <;> simp

/-- The display text of a configuration whose bind host is the text of host
`h`, which reads back: the locator text of `h` at the configured port. -/
theorem bindDisplay_eq_toText {c : ServerConfig} {h : Host} (hh : Host.parse h.toText = .ok h)
    (hhost : c.bindHost = h.toText) (hport : c.port < 65536) :
    c.bindDisplay = Locator.toText ⟨h, some c.port.toUInt16⟩ := by
  have hfamily : classify c.bindHost = h.family := hhost ▸ classify_of_parse_eq_ok hh
  have hnat : c.port.toUInt16.toNat = c.port := UInt16.toNat_ofNat_of_lt' hport
  unfold bindDisplay
  rw [hfamily, hhost]
  cases h with
  | ipv6 a => simp [Host.family, Locator.toText, Host.toText, hnat]
  | ipv4 v => simp [Host.family, Locator.toText, hnat]
  | name n => simp [Host.family, Locator.toText, hnat]

/-- **The display text after an override** reads back as the host that was
read, at the port the configuration now has. -/
theorem bindDisplay_applyBind {c c' : ServerConfig} {s : String} {l : Locator} (hl : Locator.parse s = .ok l)
    (h : c.applyBind s = .ok c') :
    c'.port.toUInt16.toNat = c'.port ∧ Locator.parse c'.bindDisplay = .ok ⟨l.host, some c'.port.toUInt16⟩ := by
  obtain ⟨l', hl', rfl⟩ := applyBind_eq_ok h
  obtain rfl : l = l' := Stream.Except.ok_inj (hl.symm.trans hl')
  have hhost := Locator.parse_host_toText hl
  have hport : (l.portOr c.port.toUInt16).toNat < 65536 := UInt16.toNat_lt _
  refine ⟨UInt16.toNat_ofNat_of_lt' hport, ?_⟩
  rw [bindDisplay_eq_toText hhost rfl hport]
  exact Locator.parse_toText_of_host hhost

end ServerConfig

/-- **Display and parse are inverse** on hosts and on locators, and through
the bind override of a configuration: a host or a locator read from a text
is read back from its own text, and after an override the bind host is
classified as the family of the host read (never invalid, so `validate`
accepts it) while the display text reads back as that host at the
configured port. -/
theorem display_parse_inverse (s : String) :
    (∀ h, Host.parse s = .ok h → Host.parse h.toText = .ok h) ∧
    (∀ l, Locator.parse s = .ok l → Locator.parse l.toText = .ok l) ∧
    (∀ c c' : ServerConfig, c.applyBind s = .ok c' →
      ∃ l, Locator.parse s = .ok l ∧ classify c'.bindHost = l.host.family ∧
        classify c'.bindHost ≠ .invalid ∧ (∀ e, c'.validate ≠ .error (.invalidBindHost e)) ∧
        c'.port.toUInt16.toNat = c'.port ∧
        Locator.parse c'.bindDisplay = .ok ⟨l.host, some c'.port.toUInt16⟩) := by
  refine ⟨fun _ => Host.parse_toText, fun _ => Locator.parse_toText, fun c c' h => ?_⟩
  obtain ⟨l, hl, hc⟩ := ServerConfig.applyBind_eq_ok h
  have hfamily : classify c'.bindHost = l.host.family := by
    rw [hc]
    exact classify_of_parse_eq_ok (Locator.parse_host_toText hl)
  have hvalid : classify c'.bindHost ≠ .invalid := hfamily ▸ l.host.family_ne_invalid
  obtain ⟨hnat, hdisplay⟩ := ServerConfig.bindDisplay_applyBind hl h
  exact ⟨l, hl, hfamily, hvalid, ServerConfig.validate_ne_invalidBindHost hvalid, hnat, hdisplay⟩

end CimBroker.Server
