import Hmsdk.Hmalloc.Inheritance
import Hmsdk.Hmalloc.Mbind
import Hmsdk.Hmalloc.Policy
import Hmsdk.Hmalloc.Failure
import Hmsdk.Hmalloc.Ownership
import Hmsdk.Hmalloc.Preconditions
import Hmsdk.Hmalloc.Calloc
import Hmsdk.Hmalloc.Alignment
import Hmsdk.Hmalloc.Atomic
import Hmsdk.Bwprof.Attribution
import Hmsdk.Bwprof.Totals
import Hmsdk.Bwprof.DataDirectory
import Hmsdk.Bwprof.Coverage
import Hmsdk.Bwprof.ExitStatus
import Hmsdk.Bwprof.Ratios
import Hmsdk.Bwprof.Dump
import Hmsdk.Bwprof.Info
import Hmsdk.Bwprof.CommandLine
import Hmsdk.Bwprof.Sessions
import Hmsdk.Tools.Stable
import Hmsdk.Tools.Command
import Hmsdk.Tools.Packages
import Hmsdk.Tools.Halving
import Hmsdk.Tools.Coherent
import Hmsdk.Tools.RegionSize
import Hmsdk.Tools.TopologyFormat
import Hmsdk.Tools.PackageTree
import Hmsdk.Tools.Mlc
import Hmsdk.Hmalloc.Modes
import Hmsdk.Hmalloc.Contents
import Hmsdk.Hmalloc.Switching
import Hmsdk.Hmalloc.Nested
import Hmsdk.Tools.Reruns
import Hmsdk.Tools.Steps
import Hmsdk.Tools.Transcript
