import Wifucked.Lib.Keyed
import Wifucked.Lib.Runs
import Wifucked.Lib.Spans
import Wifucked.Lib.Limits
import Wifucked.Lib.Threads
import Wifucked.Lib.Replace
import Wifucked.Lib.Journal
import Wifucked.Lib.Disk
import Wifucked.Lib.Signal
import Wifucked.Lib.Sha256
import Wifucked.Lib.Numerals
import Wifucked.Lib.Prefixes
import Wifucked.Lib.Dotted
import Wifucked.Lib.JsonText
import Wifucked.Lib.Scan
import Wifucked.Lib.Inet
import Wifucked.Lib.Lines
import Wifucked.Lib.Directives
import Wifucked.Lib.Stretches
import Wifucked.Clock
import Wifucked.Policy
import Wifucked.ConfigFile
import Wifucked.ConfigFile.Sections
import Wifucked.ConfigFile.Boots
import Wifucked.Atomics.Model
import Wifucked.Atomics.Identity
import Wifucked.Atomics.Keys
import Wifucked.Atomics.Registry
import Wifucked.Atomics.Merging
import Wifucked.Atomics.Persisting
import Wifucked.Atomics.Loading
import Wifucked.Atomics.Isolation
import Wifucked.Usb
import Wifucked.Discovery
import Wifucked.Discovery.Connected
import Wifucked.Discovery.Throttle
import Wifucked.Probe
import Wifucked.Probe.Aging
import Wifucked.Probe.Estimates
import Wifucked.Probe.Linux
import Wifucked.Probe.Budget
import Wifucked.Probe.Baseline
import Wifucked.Probe.Rates
import Wifucked.Probe.Hints
import Wifucked.Allocator
import Wifucked.Allocator.Hysteresis
import Wifucked.Allocator.Dwell
import Wifucked.Allocator.Shares
import Wifucked.Allocator.Noninterference
import Wifucked.Allocator.SinglePath
import Wifucked.Allocator.Transitions
import Wifucked.Allocator.Rearming
import Wifucked.Allocator.Reasons
import Wifucked.Allocator.Journalled
import Wifucked.Allocator.Backups
import Wifucked.Telemetry
import Wifucked.Telemetry.Reading
import Wifucked.Lan
import Wifucked.Lan.Config
import Wifucked.LanOut
import Wifucked.LanOut.Dhcp
import Wifucked.LanOut.Silence
import Wifucked.LanOut.Subnets
import Wifucked.Lan.Plan
import Wifucked.Tunnel
import Wifucked.Tunnel.Path
import Wifucked.Enforce.Render
import Wifucked.Daemon
import Wifucked.Daemon.Modes
import Wifucked.Daemon.Choice
import Wifucked.Daemon.Standing
import Wifucked.Daemon.Carrier
import Wifucked.Daemon.Enforced
import Wifucked.Daemon.Egress
import Wifucked.Daemon.Remembered
import Wifucked.Daemon.Upstream
import Wifucked.Daemon.Measured
import Wifucked.Daemon.Passes
import Wifucked.Daemon.Permission
import Wifucked.Daemon.Cadence
import Wifucked.Daemon.Learning
import Wifucked.Daemon.Idle
import Wifucked.Daemon.Down
import Wifucked.Daemon.News
import Wifucked.Daemon.Staleness
import Wifucked.Daemon.Liveness
import Wifucked.Ports
import Wifucked.Ports.Tracking
import Wifucked.Ports.Verdicts
import Wifucked.Ports.Replug
import Wifucked.Ports.Roles
import Wifucked.Ports.Serving
import Wifucked.Ports.Lasting
import Wifucked.Ports.Residue
import Wifucked.Enforce.Kernel
import Wifucked.Enforce.Linux
import Wifucked.Enforce.Readback
import Wifucked.Enforce.Iproute
import Wifucked.Enforce.Fixpoint
import Wifucked.Daemon.Shaped
import Wifucked.Enforce.Skipped
import Wifucked.Enforce.Tables
import Wifucked.Fabric.Peers
import Wifucked.Fabric.WireGuard
import Wifucked.Fabric.Fleet
import Wifucked.Fabric.Workers
import Wifucked.Fabric.Stored
import Wifucked.Fabric.Identity
import Wifucked.Fabric.Requests
import Wifucked.Fabric.Typed
import Wifucked.Tunnel.Attach
import Wifucked.Tunnel.Answers
import Wifucked.Boot.First
import Wifucked.Boot.Count
import Wifucked.Ota.Slots
import Wifucked.Ota.Proven
import Wifucked.Ota.Once
import Wifucked.Ota.Probe
import Wifucked.Demand
import Wifucked.Radio
import Wifucked.Tunnel.Endpoint
import Wifucked.Radio.Scan
import Wifucked.Wpa
import Wifucked.Netmon.Storage
import Wifucked.Netmon.Buckets
import Wifucked.Netmon.Outages
import Wifucked.Netmon.Views
import Wifucked.Atomics.Saved
import Wifucked.Netmon.Hosts
import Wifucked.Netmon.Watching
import Wifucked.Netmon.PublicIp
import Wifucked.Fabric.Stored
import Wifucked.Tunnel.Enrolment
import Wifucked.Fabric.Entrypoint
import Wifucked.Release
import Wifucked.Api
import Wifucked.Lib.Priorities
import Wifucked.Enforce.Steering
