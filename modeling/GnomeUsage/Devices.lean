/-
The devices the analyzer listens on (`na_pcap_open` of `na-pcap.c`, `get_devices` of
`na-application.c`).

When it is activated, the analyzer walks over the devices of the network manager.  Of each activated
device it writes down the addresses as local ones, and opens a capture handle on its interface; a
device on which that fails is skipped, but its addresses stay.  The functions of the capture library
are a parameter, since they are not part of the program.

* `NetworkAnalyzer.Pcap` — the functions of the capture library that are called;
* `naPcapOpen` — a handle, or the error that is reported;
* `NMDevice`, `getDevices` — the walk over the devices, with its loops;
* `getDevices_spec` — **what is listened on**: the handles in the order of the devices, and the
  texts of the addresses;
* `local_getDevices_iff` — **the local addresses are those of the activated devices**.
-/

import GnomeUsage.Decoder
import GnomeUsage.Keys

set_option relaxedAutoImplicit false
set_option autoImplicit false

namespace NetworkAnalyzer

/-! ### Capture handles -/

/-- The snapshot length: it is meant to contain all headers. -/
def PCAP_SNAPLEN : ℕ := 200

/-- The capture library, on handles of the type `P`. -/
structure Pcap (P : Type) where
  /-- `pcap_create`: a handle, or the text left in `errbuf`. -/
  create : CStr → Except CStr P
  setSnaplen : P → ℕ → P
  setTimeout : P → ℕ → P
  /-- `pcap_activate`: the status, and the handle afterwards. -/
  activate : P → ℤ × P
  datalink : P → ℤ

/-- The codes of the domain `NA_PCAP_ERROR`. -/
inductive NAPCapError where
  | open
  deriving DecidableEq

/-- A `GError` of this domain. -/
structure GError where
  code : NAPCapError
  message : CStr
  deriving DecidableEq

structure NAPCapHandle (P : Type) where
  pcap_handle : P
  linktype : ℤ
  iface : CStr

variable {P : Type} (pcap : Pcap P)

/-- The error of a handle that is not created. -/
def createError (errbuf : CStr) : GError :=
  ⟨.open, "pcap failed to create handle for iface: ".toList ++ errbuf⟩

/-- The error of a handle that is not activated. -/
def activateError : GError := ⟨.open, "pcap failed to activate handle for iface".toList⟩

/-- `na_pcap_open`. -/
def naPcapOpen (iface : CStr) : Except GError (NAPCapHandle P) :=
  match pcap.create iface with
  | .error errbuf => .error (createError errbuf)
  | .ok pcap_handle =>
      let pcap_handle := pcap.setSnaplen pcap_handle PCAP_SNAPLEN
      let pcap_handle := pcap.setTimeout pcap_handle 100
      let (status, pcap_handle) := pcap.activate pcap_handle
      -- warnings are positive, and count as failures
      if status ≠ 0 then .error activateError
      else .ok ⟨pcap_handle, pcap.datalink pcap_handle, iface⟩

/-! ### Devices -/

/-- `NM_DEVICE_STATE_ACTIVATED`. -/
def NM_DEVICE_STATE_ACTIVATED : ℕ := 100

/-- What is asked of a device of the network manager. -/
structure NMDevice where
  state : ℕ
  iface : CStr
  /-- The addresses of the IPv4 configuration, `none` if there is none. -/
  ip4_config : Option (List InAddr)
  /-- The addresses of the IPv6 configuration, `none` if there is none. -/
  ip6_config : Option (List In6Addr)

/-- What the analyzer listens on: the host with the local addresses, and the handles. -/
structure Listening (P : Type) where
  host : Host
  iface_handles : List (NAPCapHandle P)

/-- The walk over the IPv4 addresses of a device. -/
def addIp4Addresses (host : Host) : List InAddr → Host
  | [] => host
  | addr :: iter => addIp4Addresses (addLocalAddress host (host.inetNtop addr)) iter

/-- The walk over the IPv6 addresses of a device. -/
def addIp6Addresses (host : Host) : List In6Addr → Host
  | [] => host
  | addr :: iter => addIp6Addresses (addLocalAddress host (host.inetNtop6 addr)) iter

/-- The body of the loop of `get_devices`. -/
def getDevice (application : Listening P) (nm_device : NMDevice) : Listening P :=
  if nm_device.state = NM_DEVICE_STATE_ACTIVATED then
    let host := match nm_device.ip4_config with
      | some ip4_addresses => addIp4Addresses application.host ip4_addresses
      | none => application.host
    let host := match nm_device.ip6_config with
      | some ip6_addresses => addIp6Addresses host ip6_addresses
      | none => host
    match naPcapOpen pcap nm_device.iface with
    | .ok handle => ⟨host, application.iface_handles ++ [handle]⟩
    | .error _ => ⟨host, application.iface_handles⟩
  else application

/-- `get_devices`. -/
def getDevices (application : Listening P) (nm_devices : List NMDevice) : Listening P :=
  nm_devices.foldl (getDevice pcap) application

/-- The addresses of a device, those of IPv4 first. -/
def NMDevice.addresses (nm_device : NMDevice) : List Address :=
  (nm_device.ip4_config.getD []).map Address.ip ++ (nm_device.ip6_config.getD []).map Address.ip6

/-- The devices that are looked at. -/
def activated (nm_devices : List NMDevice) : List NMDevice :=
  nm_devices.filter fun nm_device => nm_device.state = NM_DEVICE_STATE_ACTIVATED

/-- The handle of a device, if it can be opened. -/
def handleOf (nm_device : NMDevice) : Option (NAPCapHandle P) :=
  (naPcapOpen pcap nm_device.iface).toOption

/-- The host with the texts of addresses put in front of the local addresses, one after the
other. -/
def Host.addAddresses (host : Host) (addresses : List Address) : Host :=
  { host with localAddresses := (addresses.map host.text).reverse ++ host.localAddresses }

theorem text_addAddresses (host : Host) (addresses : List Address) :
    (host.addAddresses addresses).text = host.text := by
  funext addr
  cases addr <;> rfl

theorem addAddresses_nil (host : Host) : host.addAddresses [] = host := rfl

theorem addAddresses_append (host : Host) (addresses addresses' : List Address) :
    host.addAddresses (addresses ++ addresses') =
      (host.addAddresses addresses).addAddresses addresses' := by
  have htext := text_addAddresses host addresses
  simp only [Host.addAddresses] at htext ⊢
  rw [htext, List.map_append, List.reverse_append, List.append_assoc]

theorem addIp4Addresses_eq (host : Host) (addresses : List InAddr) :
    addIp4Addresses host addresses = host.addAddresses (addresses.map Address.ip) := by
  induction addresses generalizing host with
  | nil => rfl
  | cons addr addresses ih =>
      rw [addIp4Addresses, ih, List.map_cons, ← List.singleton_append, addAddresses_append]
      rfl

theorem addIp6Addresses_eq (host : Host) (addresses : List In6Addr) :
    addIp6Addresses host addresses = host.addAddresses (addresses.map Address.ip6) := by
  induction addresses generalizing host with
  | nil => rfl
  | cons addr addresses ih =>
      rw [addIp6Addresses, ih, List.map_cons, ← List.singleton_append, addAddresses_append]
      rfl

/-- One device. -/
theorem getDevice_eq (application : Listening P) (nm_device : NMDevice) :
    getDevice pcap application nm_device =
      if nm_device.state = NM_DEVICE_STATE_ACTIVATED then
        ⟨application.host.addAddresses nm_device.addresses,
          application.iface_handles ++ (handleOf pcap nm_device).toList⟩
      else application := by
  unfold getDevice
  split
  · have hhost : (match nm_device.ip6_config with
        | some ip6_addresses => addIp6Addresses
            (match nm_device.ip4_config with
              | some ip4_addresses => addIp4Addresses application.host ip4_addresses
              | none => application.host) ip6_addresses
        | none =>
            match nm_device.ip4_config with
              | some ip4_addresses => addIp4Addresses application.host ip4_addresses
              | none => application.host) =
        application.host.addAddresses nm_device.addresses := by
      rw [NMDevice.addresses, addAddresses_append]
      cases nm_device.ip4_config <;> cases nm_device.ip6_config <;>
        simp [addIp4Addresses_eq, addIp6Addresses_eq, addAddresses_nil]
    simp only [hhost, handleOf]
    cases naPcapOpen pcap nm_device.iface with
    | ok handle => rfl
    | error error => simp [Except.toOption]
  · rfl

/-- **What is listened on.**  The handles are those of the activated devices, in their order, as far
as they can be opened; the local addresses are those of all activated devices, also where the handle
cannot be opened. -/
theorem getDevices_spec (application : Listening P) (nm_devices : List NMDevice) :
    getDevices pcap application nm_devices =
      ⟨application.host.addAddresses ((activated nm_devices).flatMap NMDevice.addresses),
        application.iface_handles ++ (activated nm_devices).filterMap (handleOf pcap)⟩ := by
  induction nm_devices generalizing application with
  | nil => simp [getDevices, activated, addAddresses_nil]
  | cons nm_device nm_devices ih =>
      have hcons : getDevices pcap application (nm_device :: nm_devices) =
          getDevices pcap (getDevice pcap application nm_device) nm_devices := rfl
      rw [hcons, ih, getDevice_eq]
      by_cases hstate : nm_device.state = NM_DEVICE_STATE_ACTIVATED
      · have hactivated :
            activated (nm_device :: nm_devices) = nm_device :: activated nm_devices := by
          simp [activated, hstate]
        rw [hactivated, if_pos hstate, List.flatMap_cons, addAddresses_append,
          List.filterMap_cons]
        cases handleOf pcap nm_device with
        | none => simp
        | some handle => simp
      · have hactivated : activated (nm_device :: nm_devices) = activated nm_devices := by
          simp [activated, hstate]
        rw [hactivated, if_neg hstate]

/-- The addresses of the activated devices. -/
def deviceAddresses (nm_devices : List NMDevice) : List Address :=
  (activated nm_devices).flatMap NMDevice.addresses

/-- The host as it is when the analyzer starts, without local addresses. -/
structure Host.Fresh (host : Host) : Prop where
  readable : host.Readable
  empty : host.localAddresses = []

/-- **An address is local when an activated device has it.** -/
theorem local_getDevices_iff {host : Host} (h : host.Fresh) (nm_devices : List NMDevice)
    (addr : Address) :
    isLocalAddress (getDevices pcap ⟨host, []⟩ nm_devices).host
        ((getDevices pcap ⟨host, []⟩ nm_devices).host.text addr) = true ↔
      addr ∈ deviceAddresses nm_devices := by
  rw [getDevices_spec, text_addAddresses, isLocalAddress_iff]
  simp only [Host.addAddresses, h.empty, List.append_nil, List.mem_reverse]
  exact List.mem_map_of_injective (text_injective h.readable)

end NetworkAnalyzer
