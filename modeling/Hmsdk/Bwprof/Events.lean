import Hmsdk.Lib.Run
import Hmsdk.Bwprof.Config
import Hmsdk.Bwprof.Stats

/-! # Counting events

`EventProcessor` turns two readings of the hardware counters into the events
between them. The counters belong to the PCM library, which is not part of this
code: what it offers is a parameter, and that its counters return the later
reading less the earlier one, modulo `2 ^ 64`, is a hypothesis about it.
-/

namespace Hmsdk.Bwprof

open Lib.Run

inductive EventPosition where
  | READ
  | WRITE
  | READ2
  | WRITE2
  | CXL_RxC_MEM
  | CXL_TxC_MEM
  deriving Repr, DecidableEq

/-- What the profiler uses of PCM, on one machine. -/
structure Pcm (State : Type) (numSockets : Nat) where
  getMCCounter : Nat → EventPosition → State → State → BitVec 64
  getCXLCMCounter : Nat → EventPosition → State → State → BitVec 64
  getCXLDPCounter : Nat → EventPosition → State → State → BitVec 64
  GNR : Int
  GNR_D : Int
  GRR : Int
  SRF : Int
  maxChannels : Nat
  getCPUFamilyModel : Int
  getNumCXLPorts : Fin numSockets → Nat

section

variable {State : Type} {numSockets : Nat} (pcm : Pcm State numSockets)

/-- The families whose memory controllers count on two pairs of positions. -/
def Pcm.countsTwice (cpuFamilyModel : Int) : Bool :=
  [pcm.GNR, pcm.GNR_D, pcm.GRR, pcm.SRF].contains cpuFamilyModel

def processMemoryChannels (prevState currState : State) (data : SocketMemoryData)
    (cpuFamilyModel : Int) : SocketMemoryData :=
  (List.range pcm.maxChannels).foldl (fun data channel =>
    let data := { data with
      reads := data.reads + pcm.getMCCounter channel .READ prevState currState }
    let data := { data with
      writes := data.writes + pcm.getMCCounter channel .WRITE prevState currState }
    if pcm.countsTwice cpuFamilyModel then { data with
      reads := data.reads + pcm.getMCCounter channel .READ2 prevState currState
      writes := data.writes + pcm.getMCCounter channel .WRITE2 prevState currState }
    else data) data

def processCXLPorts (numPorts : Nat) (prevState currState : State) (data : SocketMemoryData) :
    SocketMemoryData :=
  (List.range' 4 (numPorts - 4)).foldl (fun data p => { data with
    cxlReads := data.cxlReads + pcm.getCXLCMCounter p .CXL_RxC_MEM prevState currState
    cxlWrites := data.cxlWrites + pcm.getCXLDPCounter p .CXL_TxC_MEM prevState currState }) data

def calculateEvents (targetSocket : Int) (cxlPortsPerSocket : Vector Nat numSockets)
    (cpuFamilyModel : Int) (prevStates currStates : Vector State numSockets)
    (socketData : Vector SocketMemoryData numSockets) : Vector SocketMemoryData numSockets :=
  Vector.ofFn fun skt =>
    let data := (socketData.get skt).reset
    if !selects targetSocket skt then data
    else
      let prevState := prevStates.get skt
      let currState := currStates.get skt
      let data := processMemoryChannels pcm prevState currState data cpuFamilyModel
      processCXLPorts pcm (cxlPortsPerSocket.get skt) prevState currState data

def Pcm.channelEvents (before after : State) (channel : Nat) : Access → BitVec 64
  | .dramRead => pcm.getMCCounter channel .READ before after +
      if pcm.countsTwice pcm.getCPUFamilyModel then
        pcm.getMCCounter channel .READ2 before after
      else 0
  | .dramWrite => pcm.getMCCounter channel .WRITE before after +
      if pcm.countsTwice pcm.getCPUFamilyModel then
        pcm.getMCCounter channel .WRITE2 before after
      else 0
  | .cxlRead | .cxlWrite => 0

def Pcm.portEvents (before after : State) (p : Nat) : Access → BitVec 64
  | .dramRead | .dramWrite => 0
  | .cxlRead => pcm.getCXLCMCounter p .CXL_RxC_MEM before after
  | .cxlWrite => pcm.getCXLDPCounter p .CXL_TxC_MEM before after

/-- The events of one kind on one socket that lie between two readings. -/
def Pcm.eventsBetween (skt : Fin numSockets) (before after : State) (access : Access) : BitVec 64 :=
  ∑ channel ∈ Finset.range pcm.maxChannels, pcm.channelEvents before after channel access +
    ∑ p ∈ Finset.Ico 4 (pcm.getNumCXLPorts skt), pcm.portEvents before after p access

theorem processMemoryChannels_count (prevState currState : State) (data : SocketMemoryData)
    (access : Access) :
    (processMemoryChannels pcm prevState currState data pcm.getCPUFamilyModel).count access =
      data.count access +
        ∑ channel ∈ Finset.range pcm.maxChannels,
          pcm.channelEvents prevState currState channel access := by
  refine foldl_adds (fun data => data.count access)
    (fun channel => pcm.channelEvents prevState currState channel access) ?_ data _
  intro data channel
  cases access with
  | dramRead | dramWrite =>
      simp only [Pcm.channelEvents]
      split <;> simp only [SocketMemoryData.count, add_assoc, add_zero]
  | cxlRead | cxlWrite =>
      simp only [Pcm.channelEvents]
      split <;> simp only [SocketMemoryData.count, add_zero]

theorem processCXLPorts_count (skt : Fin numSockets) (prevState currState : State)
    (data : SocketMemoryData) (access : Access) :
    (processCXLPorts pcm (pcm.getNumCXLPorts skt) prevState currState data).count access =
      data.count access +
        ∑ p ∈ Finset.Ico 4 (pcm.getNumCXLPorts skt),
          pcm.portEvents prevState currState p access := by
  refine foldl_adds (fun data => data.count access)
    (fun p => pcm.portEvents prevState currState p access) ?_ data _
  intro data p
  cases access <;> simp only [Pcm.portEvents, SocketMemoryData.count, add_zero]

/-- A selected socket is left with the events between the readings, any other
    with none; what its data held before does not matter. -/
theorem calculateEvents_count (targetSocket : Int) (prevStates currStates : Vector State numSockets)
    (socketData : Vector SocketMemoryData numSockets) (skt : Fin numSockets) (access : Access) :
    ((calculateEvents pcm targetSocket (Vector.ofFn pcm.getNumCXLPorts) pcm.getCPUFamilyModel
        prevStates currStates socketData).get skt).count access =
      if selects targetSocket skt then
        pcm.eventsBetween skt (prevStates.get skt) (currStates.get skt) access
      else 0 := by
  have ports : (Vector.ofFn pcm.getNumCXLPorts).get skt = pcm.getNumCXLPorts skt :=
    Vector.get_ofFn _ skt
  rw [calculateEvents, Vector.get_ofFn]
  cases picked : selects targetSocket skt with
  | false => simp
  | true =>
      simp only [Bool.not_true, Bool.false_eq_true, if_false, if_true, ports,
        processCXLPorts_count, processMemoryChannels_count, SocketMemoryData.reset_count,
        Pcm.eventsBetween, zero_add]

/-- The counters return the later reading less the earlier one. -/
structure Pcm.Subtracts : Prop where
  mc : ∃ reading : Nat → EventPosition → State → BitVec 64, ∀ channel position before after,
    pcm.getMCCounter channel position before after =
      reading channel position after - reading channel position before
  cxlcm : ∃ reading : Nat → EventPosition → State → BitVec 64, ∀ port position before after,
    pcm.getCXLCMCounter port position before after =
      reading port position after - reading port position before
  cxldp : ∃ reading : Nat → EventPosition → State → BitVec 64, ∀ port position before after,
    pcm.getCXLDPCounter port position before after =
      reading port position after - reading port position before

variable {pcm}

theorem Pcm.Subtracts.channelEvents_add (subtracts : pcm.Subtracts) (first middle last : State)
    (channel : Nat) (access : Access) :
    pcm.channelEvents first middle channel access + pcm.channelEvents middle last channel access =
      pcm.channelEvents first last channel access := by
  obtain ⟨reading, difference⟩ := subtracts.mc
  cases access with
  | dramRead | dramWrite =>
      simp only [Pcm.channelEvents, difference]
      split <;> ring
  | cxlRead | cxlWrite => exact add_zero 0

theorem Pcm.Subtracts.portEvents_add (subtracts : pcm.Subtracts) (first middle last : State)
    (p : Nat) (access : Access) :
    pcm.portEvents first middle p access + pcm.portEvents middle last p access =
      pcm.portEvents first last p access := by
  obtain ⟨cm, cmDifference⟩ := subtracts.cxlcm
  obtain ⟨dp, dpDifference⟩ := subtracts.cxldp
  cases access <;> simp only [Pcm.portEvents, cmDifference, dpDifference] <;> ring

theorem Pcm.Subtracts.eventsBetween_add (subtracts : pcm.Subtracts) (skt : Fin numSockets)
    (first middle last : State) (access : Access) :
    pcm.eventsBetween skt first middle access + pcm.eventsBetween skt middle last access =
      pcm.eventsBetween skt first last access := by
  simp only [Pcm.eventsBetween, ← subtracts.channelEvents_add first middle last,
    ← subtracts.portEvents_add first middle last, Finset.sum_add_distrib]
  ring

theorem Pcm.Subtracts.eventsBetween_self (subtracts : pcm.Subtracts) (skt : Fin numSockets)
    (state : State) (access : Access) : pcm.eventsBetween skt state state access = 0 := by
  have twice := subtracts.eventsBetween_add skt state state state access
  exact add_eq_left.mp twice

end

/-- The smallest machine: one socket with one channel, of which only the reads
    are counted, so a state is a single reading. -/
def oneCounter : Pcm (BitVec 64) 1 where
  getMCCounter channel position before after :=
    if channel = 0 ∧ position = .READ then after - before else 0
  getCXLCMCounter _ _ _ _ := 0
  getCXLDPCounter _ _ _ _ := 0
  GNR := 6 * 256 + 173
  GNR_D := 6 * 256 + 174
  GRR := 6 * 256 + 182
  SRF := 6 * 256 + 175
  maxChannels := 1
  getCPUFamilyModel := 6 * 256 + 143
  getNumCXLPorts _ := 0

theorem oneCounter_subtracts : oneCounter.Subtracts where
  mc := by
    refine ⟨fun channel position state => if channel = 0 ∧ position = .READ then state else 0, ?_⟩
    intro channel position before after
    simp only [oneCounter]
    split <;> simp
  cxlcm := ⟨fun _ _ _ => 0, fun _ _ _ _ => (sub_self 0).symm⟩
  cxldp := ⟨fun _ _ _ => 0, fun _ _ _ _ => (sub_self 0).symm⟩

end Hmsdk.Bwprof
